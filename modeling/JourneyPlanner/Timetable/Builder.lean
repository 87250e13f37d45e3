import JourneyPlanner.Notice
import JourneyPlanner.Timetable.Walks

/-!
Making a timetable from records. Trips of one route with the same stops form a
pattern; a trip with frequencies is a template and runs only as its repetitions.
A trip with fewer than two calls, an unknown stop or decreasing times is skipped
with a notice; a repeated trip id fails the whole timetable.
-/

namespace JourneyPlanner

/-- Route and stops shared by the trips of a pattern. -/
structure PatternKey where
  routeId : String
  stops : List Nat
  deriving DecidableEq

namespace PatternKey

def before (a b : PatternKey) : Bool :=
  decide (a.routeId < b.routeId) || (a.routeId == b.routeId && decide (a.stops < b.stops))

end PatternKey

structure Builder where
  zone : Zone
  stops : Array Stop := #[]
  calendar : ServiceCalendar := {}
  trips : Array TripRecord := #[]
  frequencies : List (String × List FrequencyRecord) := []
  walks : Array Walk := #[]
  notices : Array Notice := #[]

namespace Builder

def findStop? (b : Builder) (stopId : String) : Option Nat :=
  b.stops.toList.findIdx? fun s => s.stopId == stopId

/-- The index of the stop; a repeated id keeps its first definition. -/
def addStop (b : Builder) (stopId : String) (name : Option String) : Nat × Builder :=
  match b.findStop? stopId with
  | some index => (index, { b with notices := b.notices.push (.stopRepeated stopId) })
  | none => (b.stops.size, { b with stops := b.stops.push { stopId := stopId, name := name } })

def resolveStop (b : Builder) (stopId : String) : Except Fault Nat :=
  match b.findStop? stopId with
  | some index => .ok index
  | none => .error (.data (.unknownStop stopId))

def setPriority (b : Builder) (stopId : String) (priority : TransferPriority) :
    Except Fault Builder :=
  match b.resolveStop stopId with
  | .error e => .error e
  | .ok index =>
    .ok { b with stops := b.stops.modify index fun s => { s with priority := priority } }

def addServiceDates (b : Builder) (serviceId : String) (dates : List Date) : Builder :=
  let (code, calendar) := b.calendar.register serviceId
  { b with calendar := dates.foldl (fun c date => c.addDate code date) calendar }

def removeServiceDate (b : Builder) (serviceId : String) (date : Date) : Builder :=
  let (code, calendar) := b.calendar.register serviceId
  { b with calendar := calendar.removeDate code date }

def addTrip (b : Builder) (trip : TripRecord) : Builder :=
  { b with trips := b.trips.push trip }

def addFrequency (b : Builder) (f : FrequencyRecord) : Builder :=
  { b with frequencies := Association.alter f.tripId (fun fs => fs.getD [] ++ [f]) b.frequencies }

def addTransfer (b : Builder) (source target : String) (duration : Time) : Except Fault Builder :=
  if duration < 0 then .error (.data (.negativeTransfer duration source target))
  else
    match b.resolveStop source with
    | .error e => .error e
    | .ok s =>
      match b.resolveStop target with
      | .error e => .error e
      | .ok t => .ok { b with walks := b.walks.push ⟨s, t, duration⟩ }

/-- Calls without a sequence number come first. -/
def sequenceBefore (a b : StopTimeRecord) : Bool :=
  match a.stopSequence, b.stopSequence with
  | none, some _ => true
  | some m, some n => decide (m < n)
  | _, none => false

def inOrder (stopTimes : List StopTimeRecord) : List StopTimeRecord :=
  Ordered.sort sequenceBefore stopTimes

/-- Stop indices of the calls, or the first stop id that is unknown. -/
def stopsOf (b : Builder) : List StopTimeRecord → Except String (List Nat)
  | [] => .ok []
  | s :: rest =>
    match b.findStop? s.stopId with
    | none => .error s.stopId
    | some index =>
      match stopsOf b rest with
      | .error id => .error id
      | .ok indices => .ok (index :: indices)

/-- The trips a template runs as, entry by entry. -/
def repetitions (template : Trip) (entries : List FrequencyRecord) : List Trip :=
  (entries.flatMap FrequencyRecord.departures).map fun departure =>
    let details := template.details
    template.startingAt
      { details with tripId := details.tripId ++ "#" ++ toString departure } departure

/-- Trips of a record with the pattern they belong to. -/
structure Accepted where
  key : PatternKey
  trips : List Trip

structure Assembly where
  calendar : ServiceCalendar
  pools : Pools := {}
  notices : Array Notice := #[]
  accepted : Array Accepted := #[]
  skipped : Nat := 0

namespace Assembly

def skip (a : Assembly) (notice : Notice) : Assembly :=
  { a with notices := a.notices.push notice, skipped := a.skipped + 1 }

/-- Judges one record and takes in its trips. -/
def add (b : Builder) (a : Assembly) (r : TripRecord) : Except Fault Assembly :=
  if r.stopTimes.length < 2 then .ok (a.skip (.tooFewCalls r.tripId r.stopTimes.length))
  else
    let stopTimes := inOrder r.stopTimes
    match b.stopsOf stopTimes with
    | .error stopId => .ok (a.skip (.unknownStop r.tripId stopId))
    | .ok stops =>
      let (code, calendar) := a.calendar.register r.serviceId
      let details : TripDetails :=
        { tripId := r.tripId, routeId := r.routeId, serviceCode := code, headsign := r.headsign,
          wheelchair := r.wheelchair, bikes := r.bikes }
      match Trip.ofStopTimes details stopTimes with
      | .error e => .error (.data e)
      | .ok trip =>
        let a := { a with calendar := calendar, pools := trip.shareColumns a.pools }
        match trip.decrease? with
        | some (position, decrease) => .ok (a.skip (.timesDecrease r.tripId decrease position))
        | none =>
          let trips := match Association.find? r.tripId b.frequencies with
            | some entries => repetitions trip entries
            | none => [trip]
          .ok { a with accepted := a.accepted.push ⟨⟨r.routeId, stops⟩, trips⟩ }

/-- Takes in records until an id comes a second time; what was assembled and
noticed by then is kept beside the fault. -/
def addAll (b : Builder) (seen : List String) (a : Assembly) :
    List TripRecord → Assembly × Option Fault
  | [] => (a, none)
  | r :: rest =>
    if seen.contains r.tripId then (a, some (.data (.duplicateTrip r.tripId)))
    else
      match add b a r with
      | .error e => (a, some e)
      | .ok a => addAll b (r.tripId :: seen) a rest

end Assembly

/-- By first departure, then by id. -/
def tripBefore (a b : Trip) : Bool :=
  decide (a.firstDeparture < b.firstDeparture)
    || (a.firstDeparture == b.firstDeparture && decide (a.details.tripId < b.details.tripId))

def keysOf (accepted : List Accepted) : List PatternKey :=
  Ordered.sort PatternKey.before (accepted.map (·.key)).eraseDups

/-- The `n`-th pattern of a route, counted from zero, has the code `route:n`. -/
def patternAt (accepted : List Accepted) (keys : List PatternKey) (i : Nat) (key : PatternKey) :
    Pattern where
  code := key.routeId ++ ":" ++ toString ((keys.take i).countP fun k => k.routeId == key.routeId)
  routeId := key.routeId
  stops := key.stops
  trips := Ordered.sort tripBefore <|
    (accepted.filter fun a => decide (a.key = key)).flatMap (·.trips)

def patternsOf (accepted : List Accepted) : List Pattern :=
  let keys := keysOf accepted
  keys.zipIdx.map fun (key, i) => patternAt accepted keys i key

/-- Every trip with its key; of equal ids the last comes first. -/
def tripIndexOf (patterns : List Pattern) : List (String × TripKey) :=
  (patterns.zipIdx.flatMap fun (p, i) =>
    p.trips.zipIdx.map fun (t, j) => (t.details.tripId, (⟨i, j⟩ : TripKey))).reverse

def stopPatternsOf (patterns : List Pattern) (numStops : Nat) : Rows Nat :=
  Rows.ofLists <| (List.range numStops).map fun s =>
    (patterns.zipIdx.filter fun (p, _) => p.stops.contains s).map (·.2)

/-- The timetable, or why there is none, with the notices of making it. -/
def build (b : Builder) : List Notice × Except Fault Timetable :=
  match Assembly.addAll b [] { calendar := b.calendar } b.trips.toList with
  | (a, some e) => (a.notices.toList, .error e)
  | (a, none) =>
    let patterns := patternsOf a.accepted.toList
    let table := Walks.shortest b.walks.toList
    let index := tripIndexOf patterns
    let numStops := b.stops.size
    let timetable : Timetable :=
      { stops := b.stops
        patterns := patterns.toArray
        stopPatterns := stopPatternsOf patterns numStops
        transfers := Walks.outgoing table numStops
        incoming := Walks.incoming table numStops
        calendar := a.calendar
        zone := b.zone
        tripIndex := index }
    let notices := a.notices.toList ++
      [.transfersIndexed timetable.transfers.items.size numStops,
        .timetableBuilt numStops patterns.length (Ordered.numDistinct (index.map (·.1))) a.skipped
          a.calendar.numServices,
        .columnsShared a.pools.stats]
    (notices, .ok timetable)

end Builder
end JourneyPlanner
