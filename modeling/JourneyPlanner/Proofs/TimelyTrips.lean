import JourneyPlanner.Proofs.FeedHistory
import JourneyPlanner.Proofs.Searchable

/-!
Which trips are searched. Whatever was published, a search sees on each date the trips that
run and never go back in time, and no others. A feed reports the same of each update: that
the trip of the update would be left out.
-/

namespace JourneyPlanner

namespace Trip

/-- Nobody leaves before arriving, nor arrives at the next stop before leaving. -/
structure KeepsTime (t : Trip) : Prop where
  dwell : ∀ p arrival departure, t.arrival? p = some arrival → t.departure? p = some departure →
    arrival ≤ departure
  run : ∀ p departure arrival, t.departure? p = some departure → t.arrival? (p + 1) = some arrival →
    departure ≤ arrival

variable {t : Trip} {calls : List Call}

/-- Only calls that follow each other need to be compared. -/
theorem chronological_of_next (hdwell : ∀ c ∈ calls, c.arrival ≤ c.departure)
    (hrun : ∀ (p : Nat) (c d : Call), calls[p]? = some c → calls[p + 1]? = some d →
      c.departure ≤ d.arrival) : Chronological calls := by
  induction calls with
  | nil => exact ⟨by simp, .nil⟩
  | cons c calls ih =>
      obtain ⟨hfirst, hrest⟩ := List.forall_mem_cons.mp hdwell
      refine (ih hrest fun p d e hd he => hrun (p + 1) d e hd he).cons hfirst fun d hd => ?_
      exact hrun 0 c d rfl (by rwa [List.getElem?_cons_succ, ← List.head?_eq_getElem?])

theorem keepsTime_iff : t.KeepsTime ↔ Chronological t.calls := by
  have harrival : ∀ {p : Nat} {c : Call}, t.calls[p]? = some c → t.arrival? p = some c.arrival :=
    fun h => by rw [arrival?, call?_eq, h]; rfl
  have hdeparture : ∀ {p : Nat} {c : Call}, t.calls[p]? = some c →
      t.departure? p = some c.departure := fun h => by rw [departure?, call?_eq, h]; rfl
  constructor
  · intro h
    refine chronological_of_next (fun c hc => ?_) fun p c d hc hd =>
      h.run p _ _ (hdeparture hc) (harrival hd)
    obtain ⟨p, hp⟩ := List.getElem?_of_mem hc
    exact h.dwell p _ _ (harrival hp) (hdeparture hp)
  · intro h
    constructor
    · intro p a d ha hd
      obtain ⟨c, hc, rfl⟩ := Option.map_eq_some_iff.mp ha
      rw [call?_eq] at hc
      obtain rfl := Option.some.inj ((hdeparture hc).symm.trans hd)
      exact h.dwell c (List.mem_of_getElem? hc)
    · intro p d a hd ha
      obtain ⟨c, hc, rfl⟩ := Option.map_eq_some_iff.mp hd
      obtain ⟨c', hc', rfl⟩ := Option.map_eq_some_iff.mp ha
      rw [call?_eq] at hc hc'
      exact h.departure_le (Nat.lt_succ_self p) hc hc'

end Trip

namespace Timetable

/-- Trips of a date are listed once, in the order of the pattern. -/
theorem tripsOnDate_ascending (t : Timetable) (pattern : Nat) (date : Date) :
    (t.tripsOnDate pattern date).Pairwise (· < ·) := by
  unfold tripsOnDate
  cases t.patterns[pattern]? with
  | none => exact .nil
  | some p =>
      have hall : (p.trips.zipIdx.map (·.2)).Pairwise (· < ·) := by
        rw [List.zipIdx_map_snd]
        exact List.pairwise_lt_range'
      exact hall.sublist (List.filter_sublist.map _)

end Timetable

/-- The trips of a pattern that a search may use on a date, with their indices. -/
structure Snapshot.Serves (sn : Snapshot) (t : Timetable) (pattern : Nat) (date : Date)
    (trips : List (Nat × Trip)) : Prop where
  ascending : (trips.map (·.1)).Pairwise (· < ·)
  mem_iff : ∀ index trip, (index, trip) ∈ trips ↔
    (∃ base, t.scheduledTrip? ⟨pattern, index⟩ = some base
        ∧ t.calendar.isActive base.details.serviceCode date = true)
      ∧ sn.trip? t ⟨pattern, index⟩ = some trip ∧ trip.isCanceled = false ∧ trip.KeepsTime

/-- The trip at an index, if a search may use it. -/
def Snapshot.usableTrip? (sn : Snapshot) (t : Timetable) (pattern index : Nat) : Option (Nat × Trip) :=
  ((sn.trip? t ⟨pattern, index⟩).filter Trip.isUsable).map fun trip => (index, trip)

namespace DayTrips

variable {t : Timetable} {sn : Snapshot} {pattern index : Nat} {date : Date} {trip : Trip}

theorem usableTrip?_eq_some {x : Nat × Trip} : sn.usableTrip? t pattern index = some x ↔
    x.1 = index ∧ sn.trip? t ⟨pattern, index⟩ = some x.2 ∧ x.2.isUsable = true := by
  obtain ⟨index', trip⟩ := x
  simp only [Snapshot.usableTrip?, Option.map_eq_some_iff, Option.filter_eq_some_iff, Prod.mk.injEq]
  constructor
  · rintro ⟨trip', hboth, rfl, rfl⟩
    exact ⟨rfl, hboth⟩
  · rintro ⟨rfl, hboth⟩
    exact ⟨trip, hboth, rfl, rfl⟩

theorem trips_ofDate (t : Timetable) (sn : Snapshot) (pattern : Nat) (searchDate date : Date) :
    (ofDate t sn pattern searchDate date).trips.toList
      = ((t.tripsOnDate pattern date).filterMap (sn.usableTrip? t pattern)).map fun x =>
        DayTrip.ofTrip x.2 date (searchDate.daysUntil date * secondsOfDay) := by
  simp only [ofDate, DayTrip.ofTrip_dayOffset]
  induction t.tripsOnDate pattern date with
  | nil => rfl
  | cons index indices ih =>
      cases h : sn.trip? t ⟨pattern, index⟩ with
      | none => simpa [h, Snapshot.usableTrip?] using ih
      | some trip => cases husable : trip.isUsable <;> simpa [h, Snapshot.usableTrip?, husable] using ih

theorem serves_usableTrips (h : ∀ {key trip}, sn.trip? t key = some trip →
      (trip.isUsable = true ↔ trip.isCanceled = false ∧ Chronological trip.calls)) :
    sn.Serves t pattern date
      ((t.tripsOnDate pattern date).filterMap (sn.usableTrip? t pattern)) where
  ascending := by
    rw [List.pairwise_map, List.pairwise_filterMap]
    refine (t.tripsOnDate_ascending pattern date).imp fun hlt x hx y hy => ?_
    obtain ⟨rfl, -⟩ := usableTrip?_eq_some.mp hx
    obtain ⟨rfl, -⟩ := usableTrip?_eq_some.mp hy
    exact hlt
  mem_iff index trip := by
    simp only [List.mem_filterMap, usableTrip?_eq_some, ← Timetable.mem_tripsOnDate,
      Trip.keepsTime_iff]
    constructor
    · rintro ⟨_, hindex, rfl, htrip, husable⟩
      exact ⟨hindex, htrip, (h htrip).mp husable⟩
    · rintro ⟨hindex, htrip, husable⟩
      exact ⟨index, hindex, rfl, htrip, (h htrip).mpr husable⟩

end DayTrips

namespace Feed

variable {b : Builder} {t : Timetable} {f : Feed} {us : List TripUpdate} {i : Nat} {u : TripUpdate}

theorem appliedNonMonotonic_iff {trip : Trip} :
    (LiveTrips.outcome trip).1 = .appliedNonMonotonic ↔ trip.isCanceled = false ∧ ¬ trip.KeepsTime := by
  rw [Trip.keepsTime_iff, ← Trip.decrease?_eq_none_iff]
  unfold LiveTrips.outcome
  cases trip.isCanceled <;> cases trip.decrease? <;> simp

section Built

variable (hb : b.Assembled) (hbuild : b.build.2 = .ok t)

include hb hbuild

/-- Trips run as published, and keep time as long as 32 bits hold their times. -/
theorem keepsTime_of_scheduledTrip? (hfits : t.TripsFit) {key : TripKey} {trip : Trip}
    (ht : t.scheduledTrip? key = some trip) : trip.isCanceled = false ∧ trip.KeepsTime := by
  obtain ⟨p, -, hpublished⟩ := Builder.published_of_scheduledTrip? hb hbuild ht
  have hcalls := hpublished.chronological (hfits.fits ht)
  refine ⟨by rw [Trip.isCanceled, hpublished.state]; rfl, Trip.keepsTime_iff.mpr ?_⟩
  rwa [Trip.calls, hpublished.live, Option.getD_none]

/-- An update is reported not to keep time if its trip, as it is right after the update, runs
and does not. -/
theorem Running.reports (hfits : t.TripsFit) (h : Running t f) (hu : us[i]? = some u) :
    (f.applyUpdates us).2.1[i]? = some .appliedNonMonotonic ↔
      ∃ key trip, u.key? t = some key
        ∧ (f.applyUpdates (us.take (i + 1))).1.snapshot.trip? t key = some trip
        ∧ trip.isCanceled = false ∧ ¬ trip.KeepsTime := by
  obtain ⟨rfl, hm⟩ := h.revise hb hbuild
  change (applyEach f.timetable f.snapshot.trips us).2.1[i]? = some .appliedNonMonotonic ↔ _
  rcases outcome_applyEach hb hbuild hm hu with ⟨hnone, hrejected⟩ | ⟨key, trip, hkey, htrip, hscheduled, houtcome⟩
  · simp [hrejected, hnone]
  · have hreported : LiveTrips.reported u trip = .appliedNonMonotonic
        ↔ trip.isCanceled = false ∧ ¬ trip.KeepsTime := by
      unfold LiveTrips.reported
      split
      case isTrue hrevert =>
        have hkeeps := (keepsTime_of_scheduledTrip? hb hbuild hfits (hscheduled hrevert)).2
        simp [hkeeps]
      case isFalse => exact appliedNonMonotonic_iff
    rw [houtcome, Option.some_inj, hreported]
    constructor
    · exact fun hboth => ⟨key, trip, hkey, htrip, hboth⟩
    · rintro ⟨key', trip', hkey', htrip', hboth⟩
      obtain rfl := Option.some.inj (hkey.symm.trans hkey')
      obtain rfl := Option.some.inj (htrip.symm.trans htrip')
      exact hboth

end Built

end Feed

namespace LocalLine

/-- The first trip would arrive at the second stop after it has left it. -/
def lateArrival : TripUpdate :=
  .times "p" (.position 1) (some 2000) none false

end LocalLine

end JourneyPlanner
