import JourneyPlanner.Proofs.Partition
import JourneyPlanner.Proofs.SharedColumns
import Mathlib.Tactic.Ring

/-!
What the trips of a timetable show of their records. A trip keeps its times relative to its first
arrival and its headsigns only where they differ; whoever reads a call finds what the record says
of it, and for a trip that repeats a template the same, later by one number of seconds.
-/

namespace JourneyPlanner

/-- The sequence number by which a call is put in order. -/
def StopTimeRecord.rank (s : StopTimeRecord) : WithBot Nat :=
  s.stopSequence

namespace TripRecord

/-- By sequence numbers, those without one first; equal ones as they were given. -/
def callsInOrder (r : TripRecord) : List StopTimeRecord :=
  r.stopTimes.mergeSort fun s s' => decide (s.rank ≤ s'.rank)

theorem inOrder_stopTimes (r : TripRecord) : Builder.inOrder r.stopTimes = r.callsInOrder := by
  rw [Builder.inOrder_eq_mergeSort, callsInOrder]
  congr 1
  funext s s'
  rw [Bool.eq_iff_iff, Bool.not_eq_true', ← Bool.not_eq_true, sequenceBefore_iff, not_lt,
    decide_eq_true_iff]
  rfl

theorem length_callsInOrder (r : TripRecord) : r.callsInOrder.length = r.stopTimes.length :=
  (List.mergeSort_perm ..).length_eq

/-- 32 bits hold the times of the calls `later` seconds later. -/
def FitsLater (r : TripRecord) (later : Time) : Prop :=
  ∀ s ∈ r.stopTimes, Time.Fits (s.arrival + later) ∧ Time.Fits (s.departure + later)

instance (r : TripRecord) (later : Time) : Decidable (r.FitsLater later) :=
  inferInstanceAs (Decidable (∀ s ∈ r.stopTimes, _ ∧ _))

theorem FitsLater.of_getElem? {r : TripRecord} {later : Time} (h : r.FitsLater later) {i : Nat}
    {s : StopTimeRecord} (hs : r.callsInOrder[i]? = some s) :
    Time.Fits (s.arrival + later) ∧ Time.Fits (s.departure + later) :=
  h s ((List.mergeSort_perm ..).mem_iff.mp (List.mem_of_getElem? hs))

/-- 32 bits hold the times of the record and of each of its repetitions. -/
structure TimesFit (r : TripRecord) (entries : List FrequencyRecord) : Prop where
  given : r.FitsLater 0
  repeated : ∀ first, r.callsInOrder[0]? = some first → ∀ f ∈ entries, ∀ departure ∈ f.departures,
    r.FitsLater (departure - first.departure)

instance (r : TripRecord) (entries : List FrequencyRecord) : Decidable (r.TimesFit entries) :=
  decidable_of_iff (r.FitsLater 0 ∧ ∀ first ∈ (Builder.inOrder r.stopTimes)[0]?, ∀ f ∈ entries,
      ∀ departure ∈ f.departures, r.FitsLater (departure - first.departure)) <| by
    rw [r.inOrder_stopTimes]
    exact ⟨fun h => ⟨h.1, h.2⟩, fun h => ⟨h.given, h.repeated⟩⟩

end TripRecord

namespace Trip

/-- What is read of a trip at a position is what the record of the call says, `later` seconds
later. -/
structure ShowsAt (t : Trip) (position : Nat) (s : StopTimeRecord) (headsign : Option String)
    (later : Time) : Prop where
  scheduledArrival : t.scheduledArrival? position = some (s.arrival + later)
  scheduledDeparture : t.scheduledDeparture? position = some (s.departure + later)
  arrival : t.arrival? position = some (s.arrival + later)
  departure : t.departure? position = some (s.departure + later)
  pickup : t.pickup? position = some s.pickup
  dropOff : t.dropOff? position = some s.dropOff
  isTimepoint : t.isTimepoint position = s.isTimepoint
  headsign : t.headsign? position = some headsign
  sequence : t.sequence? position = some (s.stopSequence.getD position)

/-- A trip with the calls of a record, `later` seconds later. A call without a headsign shows that
of the trip. -/
structure Shows (t : Trip) (r : TripRecord) (later : Time) : Prop where
  numCalls : t.numCalls = r.callsInOrder.length
  calls : ∀ (position : Nat) (s : StopTimeRecord), r.callsInOrder[position]? = some s →
    t.ShowsAt position s (s.headsign.or r.headsign) later

theorem Shows.exists_showsAt {t : Trip} {r : TripRecord} {later : Time} (h : t.Shows r later)
    {i : Nat} (hi : i < t.numCalls) :
    ∃ s headsign, t.ShowsAt i s headsign later := by
  rw [h.numCalls] at hi
  exact ⟨_, _, h.calls i _ (List.getElem?_eq_getElem hi)⟩

/-- Seconds from the first departure to the last arrival. -/
def duration? (t : Trip) : Option Time := do
  return (← t.arrival? (t.numCalls - 1)) - (← t.departure? 0)

/-- Headsigns are left out only where the trip's headsign says the same. -/
theorem headsignsOf_spec (headsign : Option String) (stopTimes : List StopTimeRecord) :
    headsignsOf headsign stopTimes = some (stopTimes.map fun s => s.headsign.or headsign)
      ∨ headsignsOf headsign stopTimes = none
        ∧ ∀ s ∈ stopTimes, s.headsign.or headsign = headsign := by
  simp only [headsignsOf]
  split
  case isFalse => exact .inl rfl
  case isTrue h =>
    refine .inr ⟨rfl, fun s hs => ?_⟩
    simp only [Bool.or_eq_true, Bool.and_eq_true, List.all_eq_true, Option.isNone_iff_eq_none,
      beq_iff_eq] at h
    obtain ⟨-, hall⟩ | hnone := h
    · obtain hnone | hsame := hall s hs
      · rw [hnone, Option.none_or]
      · rw [hsame, Option.or_self]
    · rw [hnone s hs, Option.none_or]

section Template

variable {details : TripDetails} {stopTimes : List StopTimeRecord} {t : Trip}

theorem live_ofStopTimes (h : ofStopTimes details stopTimes = .ok t) : t.live = none := by
  cases stopTimes with
  | nil => simp [ofStopTimes] at h
  | cons s rest => exact Except.ok.inj h ▸ rfl

theorem numCalls_ofStopTimes (h : ofStopTimes details stopTimes = .ok t) :
    t.numCalls = stopTimes.length := by
  cases stopTimes with
  | nil => simp [ofStopTimes] at h
  | cons s rest =>
      obtain rfl := Except.ok.inj h
      simp only [numCalls, scheduleOf, List.length_map, List.length_zipIdx]

/-- The times of a trip are stored without its first arrival, and read with it. -/
theorem showsAt_ofStopTimes (h : ofStopTimes details stopTimes = .ok t) {i : Nat}
    {s : StopTimeRecord} (hs : stopTimes[i]? = some s)
    (hfits : Time.Fits (s.arrival + 0) ∧ Time.Fits (s.departure + 0)) :
    t.ShowsAt i s (s.headsign.or details.headsign) 0 := by
  cases stopTimes with
  | nil => simp [ofStopTimes] at h
  | cons first rest =>
      obtain rfl := Except.ok.inj h
      have hread : ∀ {time : Time}, Time.Fits (time + 0) →
          Time.wrap (Time.wrap (time - first.arrival) + first.arrival) = time := by
        intro time htime
        rw [add_zero] at htime
        rw [Time.wrap_wrap_add, Int.sub_add_cancel, Time.wrap_of_fits htime]
      have hcall := getElem?_scheduleOf first.arrival (first :: rest) i
      rw [hs, Option.map_some] at hcall
      constructor
      case headsign =>
        obtain hheadsigns | ⟨hheadsigns, hsame⟩ := headsignsOf_spec details.headsign (first :: rest)
        · simp only [headsign?, hheadsigns, List.getElem?_map, hs, Option.map_some]
        · simp only [headsign?, hheadsigns, hsame s (List.mem_of_getElem? hs)]
      all_goals
        simp [scheduledArrival?, scheduledDeparture?, arrival?, departure?, pickup?, dropOff?,
          Trip.isTimepoint, sequence?, call?, scheduledCall?, hcall, ScheduledCall.shiftedBy,
          hread hfits.1, hread hfits.2]

end Template

section Repeating

variable {t : Trip} (details : TripDetails) (departure : Time)

/-- A copy is shifted so that it departs first when it is asked to. -/
theorem wrap_shift_startingAt (hlive : t.live = none) (hcalls : t.schedule ≠ []) :
    Time.wrap ((t.startingAt details departure).shift - t.shift)
      = Time.wrap (departure - t.firstDeparture) := by
  obtain ⟨first, rest, hschedule⟩ := List.exists_cons_of_ne_nil hcalls
  simp only [startingAt, firstDeparture, departure?, call?, hlive, scheduledCall?, hschedule,
    List.getElem?_cons_zero, Option.map_some, Option.getD_some, ScheduledCall.shiftedBy,
    Time.wrap_wrap_sub, Time.wrap_sub_wrap]
  ring_nf

/-- A copy makes the calls of its template, all of them later by one time. -/
theorem scheduledCall?_startingAt (hlive : t.live = none) (i : Nat) :
    (t.startingAt details departure).scheduledCall? i
      = (t.scheduledCall? i).map (·.later (departure - t.firstDeparture)) := by
  by_cases hcalls : t.schedule = []
  · simp only [scheduledCall?, startingAt, hcalls, List.getElem?_nil, Option.map_none]
  · have hlater : ∀ c : Call, c.later ((t.startingAt details departure).shift - t.shift)
        = c.later (departure - t.firstDeparture) := fun c => by
      rw [← c.later_wrap, wrap_shift_startingAt details departure hlive hcalls, c.later_wrap]
    rw [scheduledCall?_eq, scheduledCall?_eq, scheduledCalls_startingAt, List.getElem?_map,
      funext hlater]

theorem call?_startingAt (hlive : t.live = none) (i : Nat) :
    (t.startingAt details departure).call? i
      = (t.call? i).map (·.later (departure - t.firstDeparture)) := by
  have hcall : t.call? i = t.scheduledCall? i := by simp only [call?, hlive]
  rw [hcall, ← scheduledCall?_startingAt details departure hlive]
  rfl

theorem calls_startingAt (hlive : t.live = none) :
    (t.startingAt details departure).calls
      = t.calls.map (·.later (departure - t.firstDeparture)) := by
  refine List.ext_getElem? fun i => ?_
  rw [List.getElem?_map, ← call?_eq, ← call?_eq, call?_startingAt details departure hlive]

theorem arrival?_startingAt (hlive : t.live = none) (i : Nat) :
    (t.startingAt details departure).arrival? i
      = (t.arrival? i).map fun time => Time.wrap (time + (departure - t.firstDeparture)) := by
  simp only [arrival?, call?_startingAt details departure hlive, Option.map_map]
  rfl

theorem departure?_startingAt (hlive : t.live = none) (i : Nat) :
    (t.startingAt details departure).departure? i
      = (t.departure? i).map fun time => Time.wrap (time + (departure - t.firstDeparture)) := by
  simp only [departure?, call?_startingAt details departure hlive, Option.map_map]
  rfl

theorem firstDeparture_eq {time : Time} (h : t.departure? 0 = some time) :
    t.firstDeparture = time := by
  rw [firstDeparture, h, Option.getD_some]

/-- What a template shows of a record its copies show, later. -/
theorem ShowsAt.startingAt {i : Nat} {s : StopTimeRecord} {headsign : Option String} {later : Time}
    (h : t.ShowsAt i s headsign later) (hlive : t.live = none)
    (hheadsign : details.headsign = t.details.headsign)
    (hfits : Time.Fits (s.arrival + (later + (departure - t.firstDeparture)))
      ∧ Time.Fits (s.departure + (later + (departure - t.firstDeparture)))) :
    (t.startingAt details departure).ShowsAt i s headsign
      (later + (departure - t.firstDeparture)) := by
  have hshifted : ∀ (time : Time) (found : Option Time),
      Time.Fits (time + (later + (departure - t.firstDeparture))) → found = some (time + later) →
      found.map (fun time => Time.wrap (time + (departure - t.firstDeparture)))
        = some (time + (later + (departure - t.firstDeparture))) := by
    rintro time found htime rfl
    rw [Option.map_some, add_assoc, Time.wrap_of_fits htime]
  constructor
  case scheduledArrival =>
    rw [← hshifted _ _ hfits.1 h.scheduledArrival, scheduledArrival?, scheduledArrival?,
      scheduledCall?_startingAt details departure hlive, Option.map_map, Option.map_map]
    rfl
  case scheduledDeparture =>
    rw [← hshifted _ _ hfits.2 h.scheduledDeparture, scheduledDeparture?, scheduledDeparture?,
      scheduledCall?_startingAt details departure hlive, Option.map_map, Option.map_map]
    rfl
  case arrival =>
    rw [arrival?_startingAt details departure hlive, hshifted _ _ hfits.1 h.arrival]
  case departure =>
    rw [departure?_startingAt details departure hlive, hshifted _ _ hfits.2 h.departure]
  case pickup =>
    rw [← h.pickup, pickup?, pickup?, call?_startingAt details departure hlive, Option.map_map]
    rfl
  case dropOff =>
    rw [← h.dropOff, dropOff?, dropOff?, call?_startingAt details departure hlive, Option.map_map]
    rfl
  case isTimepoint => exact h.isTimepoint
  case headsign =>
    refine Eq.trans ?_ h.headsign
    simp only [headsign?, Trip.startingAt, hheadsign]
  case sequence => exact h.sequence

end Repeating

end Trip

namespace FrequencyRecord

variable (f : FrequencyRecord)

theorem step_pos : 0 < f.step :=
  Int.lt_of_lt_of_le Int.one_pos (Int.le_max_left 1 f.headway)

/-- A span holds as many steps as its quotient by them, rounded up. -/
theorem lt_numSteps {span step : Int} (hstep : 0 < step) (k : Nat) :
    k < ((span + step - 1) / step).toNat ↔ k * step < span := by
  rw [Int.lt_toNat, Int.lt_iff_add_one_le, Int.le_ediv_iff_mul_le hstep, add_mul, one_mul]
  omega

/-- There is a departure for each step from the start that comes before the end. -/
theorem lt_length_departures (k : Nat) :
    k < f.departures.length ↔ f.start + k * f.step < f.finish := by
  rw [departures, List.length_map, List.length_range, lt_numSteps f.step_pos, lt_sub_iff_add_lt']

theorem getElem?_departures {k : Nat} (h : k < f.departures.length) :
    f.departures[k]? = some (f.start + k * f.step) := by
  rw [departures, List.length_map, List.length_range] at h
  rw [departures, List.getElem?_map, List.getElem?_range h]
  rfl

/-- An entry runs a template as one trip for each of its departures, with the calls of the template
all later by one time. The last of them ends when the entry says it does. -/
structure RunsAs (template : Trip) (r : TripRecord) (trips : List Trip) : Prop where
  departures : ∀ k : Nat, k < trips.length ↔ f.start + k * max 1 f.headway < f.finish
  shows : ∀ (k : Nat) (trip : Trip), trips[k]? = some trip →
    trip.departure? 0 = some (f.start + k * max 1 f.headway)
      ∧ ∃ later, trip.calls = template.calls.map (·.later later) ∧ trip.Shows r later
  last : ∀ trip, trips.getLast? = some trip → ∃ duration, template.duration? = some duration
    ∧ trip.arrival? (trip.numCalls - 1) = some (f.lastArrival duration)

end FrequencyRecord

/-- The trips of a record and of the entries that repeat it. Its own trip is what the columns in
the pools make of it, and runs only if no entry repeats it. -/
structure TripRecord.RunsAs (r : TripRecord) (entries : List FrequencyRecord) (template : Trip)
    (trips : List Trip) : Prop where
  shared : ∀ pools, template.shared pools = (template, template.shareColumns pools)
  shows : template.Shows r 0
  single : entries = [] → trips = [template]
  repeated : entries ≠ [] → ∃ copies : FrequencyRecord → List Trip,
    trips = entries.flatMap copies ∧ ∀ f ∈ entries, f.RunsAs template r (copies f)

namespace Builder

/-- The copy of a template that departs at a time. -/
def copyAt (template : Trip) (departure : Time) : Trip :=
  let details := template.details
  template.startingAt
    { details with tripId := details.tripId ++ "#" ++ toString departure } departure

theorem repetitions_eq_flatMap (template : Trip) (entries : List FrequencyRecord) :
    repetitions template entries = entries.flatMap fun f => f.departures.map (copyAt template) :=
  List.map_flatMap ..

section Copies

variable {template : Trip} {r : TripRecord} {f : FrequencyRecord} {entries : List FrequencyRecord}

theorem shows_copyAt (hlive : template.live = none) (hshows : template.Shows r 0)
    {departure : Time} (hfits : r.FitsLater (departure - template.firstDeparture)) :
    (copyAt template departure).Shows r (departure - template.firstDeparture) := by
  refine ⟨hshows.numCalls, fun i s hs => ?_⟩
  have hat := (hshows.calls i s hs).startingAt
    { template.details with tripId := template.details.tripId ++ "#" ++ toString departure }
    departure hlive rfl (by rw [zero_add]; exact hfits.of_getElem? hs)
  rwa [zero_add] at hat

/-- The copies show the record as long as 32 bits hold their times. -/
theorem fitsLater_copies (hshows : template.Shows r 0) (hcalls : 0 < template.numCalls)
    (hfits : r.TimesFit entries) (hf : f ∈ entries) {departure : Time}
    (hdeparture : departure ∈ f.departures) :
    Time.Fits departure ∧ r.FitsLater (departure - template.firstDeparture) := by
  rw [hshows.numCalls] at hcalls
  have hfirst := List.getElem?_eq_getElem hcalls
  have hat := (hshows.calls 0 _ hfirst).departure
  rw [add_zero] at hat
  have hlater := hfits.repeated _ hfirst f hf departure hdeparture
  rw [Trip.firstDeparture_eq hat]
  have hreached := (hlater.of_getElem? hfirst).2
  rw [add_sub_cancel] at hreached
  exact ⟨hreached, hlater⟩

theorem departure?_copyAt (hlive : template.live = none) {first : Time}
    (hfirst : template.departure? 0 = some first) {departure : Time} (hfits : Time.Fits departure) :
    (copyAt template departure).departure? 0 = some departure := by
  rw [copyAt, Trip.departure?_startingAt _ _ hlive, hfirst, Trip.firstDeparture_eq hfirst,
    Option.map_some, add_sub_cancel, Time.wrap_of_fits hfits]

theorem runsAs_copies (hlive : template.live = none) (hshows : template.Shows r 0)
    (hcalls : 0 < template.numCalls) (hfits : r.TimesFit entries) (hf : f ∈ entries) :
    f.RunsAs template r (f.departures.map (copyAt template)) := by
  obtain ⟨s, _, hat⟩ := hshows.exists_showsAt hcalls
  obtain ⟨s', _, hat'⟩ := hshows.exists_showsAt (Nat.sub_one_lt_of_lt hcalls)
  have hfirst := hat.departure
  have harrival := hat'.arrival
  constructor
  case departures =>
    intro k
    rw [List.length_map, f.lt_length_departures]
    rfl
  case shows =>
    intro k trip htrip
    have hk : k < f.departures.length := by
      obtain ⟨hlt, -⟩ := List.getElem?_eq_some_iff.mp htrip
      rwa [List.length_map] at hlt
    have hdeparture := f.getElem?_departures hk
    rw [List.getElem?_map, hdeparture] at htrip
    obtain rfl := Option.some.inj htrip
    obtain ⟨hkept, hlater⟩ :=
      fitsLater_copies hshows hcalls hfits hf (List.mem_of_getElem? hdeparture)
    refine ⟨departure?_copyAt hlive hfirst hkept, _, ?_, shows_copyAt hlive hshows hlater⟩
    exact Trip.calls_startingAt _ _ hlive
  case last =>
    intro trip htrip
    rw [List.getLast?_map, Option.map_eq_some_iff] at htrip
    obtain ⟨departure, hlast, rfl⟩ := htrip
    refine ⟨_, by simp only [Trip.duration?, harrival, hfirst]; rfl, ?_⟩
    have hends : (copyAt template departure).arrival? (template.numCalls - 1)
        = some (Time.wrap (s'.arrival + 0 + (departure - (s.departure + 0)))) := by
      rw [copyAt, Trip.arrival?_startingAt _ _ hlive, harrival, Trip.firstDeparture_eq hfirst]
      rfl
    have hsum : Time.wrap (s'.arrival + 0 + (departure - (s.departure + 0)))
        = f.lastArrival (s'.arrival + 0 - (s.departure + 0)) := by
      rw [FrequencyRecord.lastArrival, hlast]
      exact congrArg Time.wrap (by ring)
    rw [← hsum, ← hends]
    rfl

end Copies

theorem shows_ofStopTimes {c : ServiceCalendar} {r : TripRecord} {trip : Trip}
    (h : Trip.ofStopTimes (detailsOf c r) (inOrder r.stopTimes) = .ok trip)
    (hfits : r.FitsLater 0) : trip.Shows r 0 := by
  rw [r.inOrder_stopTimes] at h
  exact ⟨Trip.numCalls_ofStopTimes h, fun i s hs =>
    Trip.showsAt_ofStopTimes h hs (hfits.of_getElem? hs)⟩

theorem runsAs_ofStopTimes {c : ServiceCalendar} {r : TripRecord} {trip : Trip}
    (h : Trip.ofStopTimes (detailsOf c r) (inOrder r.stopTimes) = .ok trip)
    (hcalls : 0 < r.stopTimes.length) {entries : List FrequencyRecord}
    (hfits : r.TimesFit entries) : r.RunsAs entries trip (runsOf entries trip) := by
  have hshows := shows_ofStopTimes h hfits.given
  have hnumCalls : 0 < trip.numCalls := by
    rwa [hshows.numCalls, r.length_callsInOrder]
  constructor
  case shared => exact trip.shared_eq
  case shows => exact hshows
  case single =>
    rintro rfl
    rfl
  case repeated =>
    intro hne
    refine ⟨fun f => f.departures.map (copyAt trip), ?_, fun f hf => ?_⟩
    · rw [← repetitions_eq_flatMap]
      cases entries with
      | nil => exact absurd rfl hne
      | cons f entries => rfl
    · exact runsAs_copies (Trip.live_ofStopTimes h) hshows hnumCalls hfits hf

end Builder

namespace Overrun

open Builder

def entries : List Entry :=
  [.stop "A" none, .stop "B" none, .stop "C" none, .serviceDates "W" [day], .trip template,
    .frequency frequency]

theorem getElem?_callsInOrder (i : Nat) : template.callsInOrder[i]? = template.stopTimes[i]? := by
  have hsorted : Builder.inOrder template.stopTimes = template.stopTimes := by decide +kernel
  rw [← template.inOrder_stopTimes, hsorted]

end Overrun

namespace NightRecords

open Builder

/-- Starts before midnight, waits at its first stop, and is not given in the order of its sequence
numbers; only one call has a headsign of its own. -/
def night : TripRecord where
  tripId := "night"
  routeId := "N"
  serviceId := "W"
  headsign := some "Ring"
  stopTimes :=
    [{ stopId := "B", arrival := 300, departure := 330, stopSequence := some 30,
        pickup := .unavailable, headsign := some "Depot" },
      { stopId := "C", arrival := -600, departure := -540 },
      { stopId := "A", arrival := -120, departure := -60, stopSequence := some 20,
        isTimepoint := false }]

/-- The same rhythm in the morning. -/
def morning : TripRecord :=
  { night with
    tripId := "morning"
    stopTimes := night.stopTimes.map fun s =>
      { s with arrival := s.arrival + 30000, departure := s.departure + 30000 } }

def everySecond : FrequencyRecord :=
  ⟨"night", 21600, 21602, 0, false⟩

def everyQuarter : FrequencyRecord :=
  ⟨"night", 40000, 41801, 900, true⟩

def entries : List Entry :=
  [.stop "A" none, .stop "B" none, .stop "C" none, .serviceDates "W" [MixedRecords.day],
    .trip night, .trip morning, .frequency everySecond, .frequency everyQuarter]

def timetable : Timetable :=
  (given .utc entries).timetable (by decide +kernel)

end NightRecords

end JourneyPlanner
