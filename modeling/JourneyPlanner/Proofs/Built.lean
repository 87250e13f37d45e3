import JourneyPlanner.Proofs.Chronology
import JourneyPlanner.Proofs.Fallible
import JourneyPlanner.Proofs.Walking

/-!
What is true of every timetable made from records: its patterns go along known
stops and are known there, their trips have one call at each stop and never
decrease in time, and its walks take no negative time.
-/

namespace JourneyPlanner

namespace Builder

/-- Builders that records were given to one by one. -/
inductive Assembled : Builder → Prop where
  | empty (zone : Zone) : Assembled { zone := zone }
  | addStop {b : Builder} (h : b.Assembled) (stopId : String) (name : Option String) :
      Assembled (b.addStop stopId name).2
  | setPriority {b b' : Builder} (h : b.Assembled) {stopId : String} {priority : TransferPriority}
      (hb : b.setPriority stopId priority = .ok b') : Assembled b'
  | addServiceDates {b : Builder} (h : b.Assembled) (serviceId : String) (dates : List Date) :
      Assembled (b.addServiceDates serviceId dates)
  | removeServiceDate {b : Builder} (h : b.Assembled) (serviceId : String) (date : Date) :
      Assembled (b.removeServiceDate serviceId date)
  | addTrip {b : Builder} (h : b.Assembled) (trip : TripRecord) : Assembled (b.addTrip trip)
  | addFrequency {b : Builder} (h : b.Assembled) (f : FrequencyRecord) :
      Assembled (b.addFrequency f)
  | addTransfer {b b' : Builder} (h : b.Assembled) {source target : String} {duration : Time}
      (hb : b.addTransfer source target duration = .ok b') : Assembled b'

/-- A walk between known stops that takes no negative time. -/
structure IsWalk (b : Builder) (w : Walk) : Prop where
  source : w.source < b.stops.size
  target : w.target < b.stops.size
  duration : 0 ≤ w.duration

theorem findStop?_lt {b : Builder} {stopId : String} {index : Nat}
    (h : b.findStop? stopId = some index) : index < b.stops.size := by
  unfold findStop? at h
  have hlt := (List.findIdx?_eq_some_iff_findIdx_eq.mp h).1
  simpa using hlt

theorem resolveStop_lt {b : Builder} {stopId : String} {index : Nat}
    (h : b.resolveStop stopId = .ok index) : index < b.stops.size := by
  unfold resolveStop at h
  cases hf : b.findStop? stopId with
  | none => simp [hf] at h
  | some i =>
      simp only [hf, Except.ok.injEq] at h
      exact h ▸ findStop?_lt hf

theorem addTransfer_eq_ok {b b' : Builder} {source target : String} {duration : Time}
    (h : b.addTransfer source target duration = .ok b') :
    ∃ s t, b.resolveStop source = .ok s ∧ b.resolveStop target = .ok t ∧ 0 ≤ duration
      ∧ b' = { b with walks := b.walks.push ⟨s, t, duration⟩ } := by
  unfold addTransfer at h
  split at h
  case isTrue => simp at h
  case isFalse hduration =>
    cases hs : b.resolveStop source with
    | error e => simp [hs] at h
    | ok s =>
        cases ht : b.resolveStop target with
        | error e => simp [hs, ht] at h
        | ok t =>
            simp only [hs, ht, Except.ok.injEq] at h
            exact ⟨s, t, rfl, rfl, Int.not_lt.mp hduration, h.symm⟩

theorem Assembled.isWalk {b : Builder} (h : b.Assembled) : ∀ w ∈ b.walks, b.IsWalk w := by
  induction h with
  | empty zone => simp
  | @addStop b h stopId name ih =>
      intro w hw
      unfold Builder.addStop at hw ⊢
      cases hf : b.findStop? stopId with
      | some index =>
          simp only [hf] at hw ⊢
          exact ⟨(ih w hw).source, (ih w hw).target, (ih w hw).duration⟩
      | none =>
          simp only [hf] at hw ⊢
          have hb := ih w hw
          exact ⟨by simpa using Nat.lt_succ_of_lt hb.source,
            by simpa using Nat.lt_succ_of_lt hb.target, hb.duration⟩
  | @setPriority b b' h stopId priority hb ih =>
      unfold Builder.setPriority at hb
      cases hr : b.resolveStop stopId with
      | error e => simp [hr] at hb
      | ok index =>
          simp only [hr, Except.ok.injEq] at hb
          subst hb
          intro w hw
          exact ⟨by simpa using (ih w hw).source, by simpa using (ih w hw).target,
            (ih w hw).duration⟩
  | addServiceDates h serviceId dates ih => exact fun w hw => ⟨(ih w hw).1, (ih w hw).2, (ih w hw).3⟩
  | removeServiceDate h serviceId date ih =>
      exact fun w hw => ⟨(ih w hw).1, (ih w hw).2, (ih w hw).3⟩
  | addTrip h trip ih => exact fun w hw => ⟨(ih w hw).1, (ih w hw).2, (ih w hw).3⟩
  | addFrequency h f ih => exact fun w hw => ⟨(ih w hw).1, (ih w hw).2, (ih w hw).3⟩
  | addTransfer h hb ih =>
      obtain ⟨s, t, hs, ht, hduration, rfl⟩ := addTransfer_eq_ok hb
      intro w hw
      rcases Array.mem_push.mp hw with hw | rfl
      · exact ⟨(ih w hw).1, (ih w hw).2, (ih w hw).3⟩
      · exact ⟨resolveStop_lt hs, resolveStop_lt ht, hduration⟩

end Builder

/-- A trip as published, with one call at each stop of its pattern. -/
structure Trip.IsPublished (routeId : String) (numStops : Nat) (t : Trip) : Prop where
  live : t.live = none
  state : t.state = .scheduled
  route : t.details.routeId = routeId
  length : t.schedule.length = numStops
  headsigns : ∀ hs, t.headsigns = some hs → hs.length = numStops
  /-- Unless 32 bits do not hold how far they are apart, its times do not decrease. -/
  ascending : (∀ c ∈ t.schedule, 0 ≤ c.arrival ∧ 0 ≤ c.departure) →
    Chronological (t.schedule.map ScheduledCall.unshifted)

namespace Trip.IsPublished

variable {routeId : String} {numStops : Nat} {t : Trip}

theorem ofStopTimes {details : TripDetails} {stopTimes : List StopTimeRecord}
    (h : Trip.ofStopTimes details stopTimes = .ok t) (hd : t.decrease? = none) :
    t.IsPublished details.routeId stopTimes.length := by
  unfold Trip.ofStopTimes at h
  cases stopTimes with
  | nil => simp at h
  | cons s rest =>
      simp only [Except.ok.injEq] at h
      subst h
      refine ⟨rfl, rfl, rfl, by simp [Trip.scheduleOf], fun hs hhs => ?_, ?_⟩
      · simp only [Trip.headsignsOf, Option.ite_none_left_eq_some, Option.some_inj] at hhs
        rw [← hhs.2, List.length_map]
      · refine Trip.chronological_unshifted (Trip.chronological_of_decrease? hd) (fun c hc => ?_)
          fun c hc => ?_
        · obtain ⟨⟨s', i⟩, -, rfl⟩ := List.mem_map.mp hc
          exact ⟨Time.fits_wrap _, Time.fits_wrap _⟩
        · obtain rfl := Option.some.inj hc
          exact congrArg Time.wrap (Int.sub_self s.arrival)

theorem startingAt (h : t.IsPublished routeId numStops) {details : TripDetails}
    (hd : details.routeId = routeId) (departure : Time) :
    (t.startingAt details departure).IsPublished routeId numStops where
  live := rfl
  state := rfl
  route := hd
  length := h.length
  headsigns := h.headsigns
  ascending := h.ascending

/-- As long as 32 bits hold them, the times of a published trip do not decrease. -/
theorem chronological (h : t.IsPublished routeId numStops) (hfits : t.Fits) :
    Chronological t.scheduledCalls :=
  hfits.chronological (h.ascending hfits.relative)

end Trip.IsPublished

/-- 32 bits hold the times of all trips. -/
def Timetable.TripsFit (t : Timetable) : Prop :=
  ∀ p ∈ t.patterns, ∀ trip ∈ p.trips, trip.Fits

instance (t : Timetable) : Decidable t.TripsFit :=
  inferInstanceAs (Decidable (∀ p ∈ t.patterns, ∀ trip ∈ p.trips, trip.Fits))

theorem Timetable.TripsFit.fits {t : Timetable} (h : t.TripsFit) {key : TripKey} {trip : Trip}
    (ht : t.scheduledTrip? key = some trip) : trip.Fits := by
  obtain ⟨p, hp, hmem⟩ := Option.bind_eq_some_iff.mp ht
  exact h p (Array.mem_of_getElem? hp) trip (List.mem_of_getElem? hmem)

namespace Builder

/-- What was taken in from one record. -/
structure Accepted.IsPublished (numStops : Nat) (a : Accepted) : Prop where
  stops : ∀ stop ∈ a.key.stops, stop < numStops
  trips : ∀ t ∈ a.trips, t.IsPublished a.key.routeId a.key.stops.length

theorem stopsOf_eq_ok {b : Builder} {stopTimes : List StopTimeRecord} {stops : List Nat}
    (h : b.stopsOf stopTimes = .ok stops) :
    stops.length = stopTimes.length ∧ ∀ stop ∈ stops, stop < b.stops.size := by
  induction stopTimes generalizing stops with
  | nil =>
      simp only [stopsOf, Except.ok.injEq] at h
      subst h
      simp
  | cons s rest ih =>
      unfold stopsOf at h
      cases hf : b.findStop? s.stopId with
      | none => simp [hf] at h
      | some index =>
          cases hr : b.stopsOf rest with
          | error id => simp [hf, hr] at h
          | ok indices =>
              simp only [hf, hr, Except.ok.injEq] at h
              subst h
              obtain ⟨hlength, hlt⟩ := ih hr
              refine ⟨by simp [hlength], fun stop hstop => ?_⟩
              cases hstop with
              | head => exact findStop?_lt hf
              | tail _ hstop => exact hlt stop hstop

theorem isPublished_repetitions {template : Trip} {routeId : String} {numStops : Nat}
    (h : template.IsPublished routeId numStops) (entries : List FrequencyRecord) :
    ∀ t ∈ repetitions template entries, t.IsPublished routeId numStops := by
  intro t ht
  obtain ⟨departure, -, rfl⟩ := List.mem_map.mp ht
  refine h.startingAt ?_ departure
  exact h.route

namespace Assembly

/-- Everything taken in so far is as published. -/
def IsPublished (b : Builder) (a : Assembly) : Prop :=
  ∀ x ∈ a.accepted, x.IsPublished b.stops.size

theorem isPublished_add {b : Builder} {a a' : Assembly} {r : TripRecord} (h : a.IsPublished b)
    (ha : add b a r = .ok a') : a'.IsPublished b := by
  unfold add at ha
  split at ha
  case isTrue =>
    simp only [Except.ok.injEq] at ha
    exact ha ▸ h
  case isFalse =>
    cases hs : b.stopsOf (inOrder r.stopTimes) with
    | error id =>
        simp only [hs, Except.ok.injEq] at ha
        exact ha ▸ h
    | ok stops =>
        simp only [hs] at ha
        split at ha
        case h_1 => simp at ha
        case h_2 trip htrip =>
          split at ha
          case h_1 =>
            simp only [Except.ok.injEq] at ha
            exact ha ▸ h
          case h_2 hdecrease =>
            simp only [Except.ok.injEq] at ha
            subst ha
            obtain ⟨hlength, hlt⟩ := stopsOf_eq_ok hs
            have hpublished : trip.IsPublished r.routeId stops.length :=
              hlength ▸ .ofStopTimes htrip hdecrease
            intro x hx
            rcases Array.mem_push.mp hx with hx | rfl
            · exact h x hx
            · refine ⟨hlt, ?_⟩
              intro t ht
              simp only at ht
              split at ht
              · exact isPublished_repetitions hpublished _ t ht
              · exact List.mem_singleton.mp ht ▸ hpublished

theorem isPublished_addAll {b : Builder} {seen : List String} {a a' : Assembly}
    {rs : List TripRecord} (h : a.IsPublished b) (ha : addAll b seen a rs = (a', none)) :
    a'.IsPublished b := by
  induction rs generalizing seen a with
  | nil =>
      simp only [addAll, Prod.mk.injEq, and_true] at ha
      exact ha ▸ h
  | cons r rest ih =>
      unfold addAll at ha
      split at ha
      case isTrue => simp at ha
      case isFalse =>
        cases hadd : add b a r with
        | error e => simp [hadd] at ha
        | ok a₁ =>
            simp only [hadd] at ha
            exact ih (isPublished_add h hadd) ha

end Assembly
end Builder

namespace Timetable

structure Sound (t : Timetable) : Prop where
  stops : ∀ {i : Nat} {p : Pattern}, t.patterns[i]? = some p → ∀ stop ∈ p.stops, stop < t.numStops
  trips : ∀ {i : Nat} {p : Pattern}, t.patterns[i]? = some p →
    ∀ trip ∈ p.trips, trip.IsPublished p.routeId p.stops.length
  indexed : ∀ {i stop : Nat}, i ∈ t.patternsAt stop ↔
    stop < t.numStops ∧ ∃ p, t.patterns[i]? = some p ∧ stop ∈ p.stops
  walks : ∀ {stop : Nat} {w : Transfer}, w ∈ t.transfersFrom stop →
    stop < t.numStops ∧ w.target < t.numStops ∧ 0 ≤ w.duration
  mirrored : ∀ {a b : Nat} {d : Time}, ⟨b, d⟩ ∈ t.transfersTo a ↔ ⟨a, d⟩ ∈ t.transfersFrom b

end Timetable

namespace Builder

/-- What a successful build consists of. -/
theorem build_eq_ok {b : Builder} {t : Timetable} (h : b.build.2 = .ok t) :
    ∃ a : Assembly, Assembly.addAll b [] { calendar := b.calendar } b.trips.toList = (a, none)
      ∧ t.stops = b.stops
      ∧ t.patterns = (patternsOf a.accepted.toList).toArray
      ∧ t.stopPatterns = stopPatternsOf (patternsOf a.accepted.toList) b.stops.size
      ∧ t.transfers = Walks.outgoing (Walks.shortest b.walks.toList) b.stops.size
      ∧ t.incoming = Walks.incoming (Walks.shortest b.walks.toList) b.stops.size
      ∧ t.calendar = a.calendar := by
  unfold build at h
  split at h
  case h_1 => simp at h
  case h_2 a ha =>
    simp only [Except.ok.injEq] at h
    subst h
    exact ⟨a, ha, rfl, rfl, rfl, rfl, rfl, rfl⟩

theorem tripIndex_build {b : Builder} {t : Timetable} (h : b.build.2 = .ok t) :
    t.tripIndex = tripIndexOf t.patterns.toList := by
  unfold build at h
  split at h
  case h_1 => simp at h
  case h_2 =>
    simp only [Except.ok.injEq] at h
    subst h
    rfl

/-- An id that is found is that of the trip found. -/
theorem findTrip?_build {b : Builder} {t : Timetable} (h : b.build.2 = .ok t) {tripId : String}
    {key : TripKey} (hfind : t.findTrip? tripId = some key) :
    ∃ trip, t.scheduledTrip? key = some trip ∧ trip.details.tripId = tripId := by
  have hmem := Association.mem_of_find? hfind
  simp only [tripIndex_build h, tripIndexOf, List.mem_reverse, List.mem_flatMap, List.mem_map,
    Prod.mk.injEq] at hmem
  obtain ⟨⟨p, i⟩, hp, ⟨trip, j⟩, htrip, rfl, rfl⟩ := hmem
  rw [List.mk_mem_zipIdx_iff_getElem?] at hp htrip
  refine ⟨trip, ?_, rfl⟩
  simp only [Timetable.scheduledTrip?, Option.bind_eq_bind, ← Array.getElem?_toList, hp,
    Option.bind_some, htrip]

theorem pattern_of_patternsOf {accepted : List Accepted} {i : Nat} {p : Pattern}
    (h : (patternsOf accepted)[i]? = some p) :
    (∃ a ∈ accepted, a.key.routeId = p.routeId ∧ a.key.stops = p.stops)
      ∧ ∀ t ∈ p.trips, ∃ a ∈ accepted, a.key.routeId = p.routeId ∧ a.key.stops = p.stops
        ∧ t ∈ a.trips := by
  simp only [patternsOf, List.getElem?_map, Option.map_eq_some_iff] at h
  obtain ⟨⟨key, j⟩, hkey, rfl⟩ := h
  have hmem : key ∈ keysOf accepted := List.fst_mem_of_mem_zipIdx (List.mem_of_getElem? hkey)
  rw [keysOf, Ordered.mem_sort, List.mem_eraseDups, List.mem_map] at hmem
  obtain ⟨a, ha, rfl⟩ := hmem
  refine ⟨⟨a, ha, rfl, rfl⟩, fun t ht => ?_⟩
  simp only [patternAt, Ordered.mem_sort, List.mem_flatMap, List.mem_filter,
    decide_eq_true_eq] at ht
  obtain ⟨x, ⟨hx, hkey⟩, ht⟩ := ht
  exact ⟨x, hx, by rw [hkey]; rfl, by rw [hkey]; rfl, ht⟩

theorem mem_stopPatternsOf {patterns : List Pattern} {numStops stop i : Nat} :
    i ∈ (stopPatternsOf patterns numStops).row stop ↔
      stop < numStops ∧ ∃ p, patterns[i]? = some p ∧ stop ∈ p.stops := by
  rw [stopPatternsOf, Rows.row_ofLists, List.getElem?_map]
  by_cases hlt : stop < numStops
  · simp only [List.getElem?_range hlt, Option.map_some, Option.getD_some, List.mem_map,
      List.mem_filter, List.contains_iff_mem, hlt, true_and]
    constructor
    · rintro ⟨⟨p, j⟩, ⟨hmem, hstop⟩, rfl⟩
      exact ⟨p, List.mk_mem_zipIdx_iff_getElem?.mp hmem, hstop⟩
    · rintro ⟨p, hp, hstop⟩
      exact ⟨(p, i), ⟨List.mk_mem_zipIdx_iff_getElem?.mpr hp, hstop⟩, rfl⟩
  · simp [hlt]

theorem sound_build {b : Builder} (hb : b.Assembled) {t : Timetable} (h : b.build.2 = .ok t) :
    t.Sound := by
  obtain ⟨a, ha, hstops, hpatterns, hstopPatterns, htransfers, hincoming, -⟩ := build_eq_ok h
  have hpublished : a.IsPublished b :=
    Assembly.isPublished_addAll (fun x hx => by simp at hx) ha
  have hsize : t.numStops = b.stops.size := congrArg Array.size hstops
  have hpattern : ∀ {i : Nat} {p : Pattern}, t.patterns[i]? = some p →
      (patternsOf a.accepted.toList)[i]? = some p := by
    intro i p hp
    rw [hpatterns] at hp
    simpa using hp
  have hwalks : ∀ {stop : Nat} {w : Transfer}, w ∈ t.transfersFrom stop ↔
      stop < b.stops.size ∧ ((stop, w.target), w.duration) ∈ Walks.shortest b.walks.toList := by
    intro stop w
    rw [Timetable.transfersFrom, htransfers, Walks.mem_outgoing]
  have hgiven : ∀ {x y : Nat} {d : Time}, ((x, y), d) ∈ Walks.shortest b.walks.toList →
      b.IsWalk ⟨x, y, d⟩ := by
    intro x y d hmem
    rcases Walks.given_of_mem_shortest hmem with hmem | ⟨-, hmem⟩
    · simp at hmem
    · exact hb.isWalk _ (by simpa using hmem)
  refine ⟨?_, ?_, ?_, ?_, ?_⟩
  · intro i p hp stop hstop
    obtain ⟨⟨x, hx, -, hkey⟩, -⟩ := pattern_of_patternsOf (hpattern hp)
    rw [hsize]
    exact (hpublished x (by simpa using hx)).stops stop (hkey ▸ hstop)
  · intro i p hp trip htrip
    obtain ⟨-, htrips⟩ := pattern_of_patternsOf (hpattern hp)
    obtain ⟨x, hx, hroute, hkey, hmem⟩ := htrips trip htrip
    have := (hpublished x (by simpa using hx)).trips trip hmem
    rwa [hroute, hkey] at this
  · intro i stop
    rw [Timetable.patternsAt, hstopPatterns, mem_stopPatternsOf, hsize, hpatterns,
      List.getElem?_toArray]
  · intro stop w hw
    obtain ⟨hlt, hmem⟩ := hwalks.mp hw
    have hwalk := hgiven hmem
    exact ⟨hsize ▸ hlt, hsize ▸ hwalk.target, hwalk.duration⟩
  · intro x y d
    rw [hwalks, Timetable.transfersTo, hincoming, Walks.mem_incoming]
    constructor
    · rintro ⟨-, hmem⟩
      exact ⟨(hgiven hmem).source, hmem⟩
    · rintro ⟨-, hmem⟩
      exact ⟨(hgiven hmem).target, hmem⟩

/-- The trips of a timetable are as published. -/
theorem published_of_scheduledTrip? {b : Builder} (hb : b.Assembled) {t : Timetable}
    (h : b.build.2 = .ok t) {key : TripKey} {trip : Trip} (htrip : t.scheduledTrip? key = some trip) :
    ∃ p, t.patterns[key.pattern]? = some p ∧ trip.IsPublished p.routeId p.stops.length := by
  simp only [Timetable.scheduledTrip?, Option.bind_eq_bind, Option.bind_eq_some_iff] at htrip
  obtain ⟨p, hp, htrip⟩ := htrip
  exact ⟨p, hp, (sound_build hb h).trips hp trip (List.mem_of_getElem? htrip)⟩

theorem live_of_scheduledTrip? {b : Builder} (hb : b.Assembled) {t : Timetable}
    (h : b.build.2 = .ok t) {key : TripKey} {trip : Trip} (htrip : t.scheduledTrip? key = some trip) :
    trip.live = none := by
  obtain ⟨p, -, hpublished⟩ := published_of_scheduledTrip? hb h htrip
  exact hpublished.live

/-- The timetable of records that can be built. -/
def timetable (b : Builder) (h : b.build.2.toOption.isSome = true) : Timetable :=
  b.build.2.toOption.get h

theorem build_eq_timetable (b : Builder) (h : b.build.2.toOption.isSome = true) :
    b.build.2 = .ok (b.timetable h) :=
  Fallible.toOption_eq_some.mp (Option.some_get h).symm

/-- A builder that was given stops, the dates of one service and trips. -/
def ofTrips (stops : List String) (service : String) (dates : List Date) (trips : List TripRecord) :
    Builder :=
  let withStops := stops.foldl (fun (b : Builder) stop => (b.addStop stop none).2)
    { zone := Zone.utc }
  trips.foldl addTrip (withStops.addServiceDates service dates)

theorem assembled_ofTrips (stops : List String) (service : String) (dates : List Date)
    (trips : List TripRecord) : (ofTrips stops service dates trips).Assembled := by
  have hstops : (stops.foldl (fun (b : Builder) stop => (b.addStop stop none).2)
      { zone := Zone.utc }).Assembled :=
    List.foldlRecOn stops _ (.empty Zone.utc) fun _ hb stop _ => hb.addStop stop none
  exact List.foldlRecOn trips _ (hstops.addServiceDates service dates) fun _ hb trip _ =>
    hb.addTrip trip

/-- The builder with further walks, each from a stop to another one. -/
def addTransfers (b : Builder) (walks : List (String × String × Time)) : Except Fault Builder :=
  walks.foldlM (fun b w => b.addTransfer w.1 w.2.1 w.2.2) b

theorem Assembled.addTransfers {b b' : Builder} {walks : List (String × String × Time)}
    (h : b.Assembled) (hb : b.addTransfers walks = .ok b') : b'.Assembled := by
  induction walks generalizing b with
  | nil =>
      obtain rfl := Fallible.pure_eq_ok.mp hb
      exact h
  | cons w walks ih =>
      obtain ⟨next, hnext, hb⟩ := Fallible.foldlM_cons_eq_ok.mp hb
      exact ih (h.addTransfer hnext) hb

end Builder

namespace Overrun

def day : Date := ⟨19852, by decide⟩

/-- It is repeated so late that 32 bits do not hold its last arrival. -/
def template : TripRecord where
  tripId := "f"
  routeId := "L"
  serviceId := "W"
  stopTimes := [{ stopId := "A", arrival := 0, departure := 0 },
    { stopId := "B", arrival := 1000, departure := 1000 },
    { stopId := "C", arrival := 2000, departure := 2000 }]

def frequency : FrequencyRecord where
  tripId := "f"
  start := 2147482000
  finish := 2147482060
  headway := 60

def builder : Builder :=
  (Builder.ofTrips ["A", "B", "C"] "W" [day] [template]).addFrequency frequency

theorem builder_assembled : builder.Assembled :=
  (Builder.assembled_ofTrips ..).addFrequency _

def timetable : Timetable :=
  builder.timetable (by decide +kernel)

theorem builder_build : builder.build.2 = .ok timetable :=
  builder.build_eq_timetable _

def repetition : Trip :=
  (timetable.scheduledTrip? ⟨0, 0⟩).get (by decide +kernel)

end Overrun
end JourneyPlanner
