import JourneyPlanner.Proofs.Applying
import JourneyPlanner.Proofs.Reproduction
import Mathlib.Data.List.ReduceOption

/-!
Sequence numbers of the calls of a trip. A call keeps the number its record gives; one without a
number gets its position, which the record may have given to another call. The numbers in the
record decide whether those of the trip tell its calls apart, and whether an update that names one
finds the call it is for.
-/

namespace JourneyPlanner

namespace Trip

/-- The number of each call leads back to that call. -/
def TellsCallsApart (t : Trip) : Prop :=
  ∀ position number, t.sequence? position = some number →
    t.positionOfSequence? number = some position

/-- The sequence number of each call. -/
def numbers (t : Trip) : List Nat :=
  t.schedule.map (·.sequence)

variable {t : Trip} {position number : Nat}

theorem sequence?_eq (t : Trip) (position : Nat) : t.sequence? position = t.numbers[position]? :=
  List.getElem?_map.symm

theorem positionOfSequence?_eq_some_iff : t.positionOfSequence? number = some position ↔
    t.numbers[position]? = some number
      ∧ ∀ earlier < position, t.numbers[earlier]? ≠ some number := by
  have hmap : t.positionOfSequence? number = t.numbers.findIdx? (· == number) := by
    rw [numbers, List.findIdx?_map]
    rfl
  rw [hmap, List.findIdx?_eq_some_iff_getElem]
  constructor
  · rintro ⟨hlt, hat, hbefore⟩
    refine ⟨List.getElem?_eq_some_iff.mpr ⟨hlt, beq_iff_eq.mp hat⟩, fun earlier hearlier => ?_⟩
    rw [List.getElem?_eq_getElem (hearlier.trans hlt)]
    simpa using hbefore earlier hearlier
  · rintro ⟨hat, hbefore⟩
    obtain ⟨hlt, hat⟩ := List.getElem?_eq_some_iff.mp hat
    refine ⟨hlt, beq_iff_eq.mpr hat, fun earlier hearlier => ?_⟩
    have hne := hbefore earlier hearlier
    rw [List.getElem?_eq_getElem (hearlier.trans hlt)] at hne
    simpa using hne

theorem positionOfSequence?_of_nodup (hnodup : t.numbers.Nodup)
    (h : t.numbers[position]? = some number) : t.positionOfSequence? number = some position := by
  refine positionOfSequence?_eq_some_iff.mpr ⟨h, fun earlier hearlier hsame => ?_⟩
  obtain ⟨hlt, -⟩ := List.getElem?_eq_some_iff.mp h
  exact List.nodup_iff_getElem?_ne_getElem?.mp hnodup earlier position hearlier hlt
    (hsame.trans h.symm)

/-- A number leads to the first call that has it. -/
theorem tellsCallsApart_iff : t.TellsCallsApart ↔ t.numbers.Nodup := by
  constructor
  · intro h
    refine List.nodup_iff_getElem?_ne_getElem?.mpr fun i j hij hj hsame => ?_
    have hnumber := List.getElem?_eq_getElem hj
    have hi := h i _ ((t.sequence?_eq i).trans (hsame.trans hnumber))
    have hj := h j _ ((t.sequence?_eq j).trans hnumber)
    rw [hi, Option.some_inj] at hj
    exact Nat.ne_of_lt hij hj
  · intro hnodup position number h
    rw [sequence?_eq] at h
    exact positionOfSequence?_of_nodup hnodup h

end Trip

/-- Numbers that are missing are those of the positions, if all that are missing come first. -/
theorem map_zipIdx_getD {numbers : List (Option Nat)}
    (h : numbers.Pairwise fun m n => n = none → m = none) (k : Nat) :
    (numbers.zipIdx k).map (fun x => x.1.getD x.2)
      = List.range' k (numbers.count none) ++ numbers.reduceOption := by
  induction h generalizing k with
  | nil => rfl
  | @cons number numbers hnumber _ ih =>
      rw [List.zipIdx_cons, List.map_cons, ih]
      cases number with
      | none =>
          rw [List.count_cons_self, List.range'_succ, List.reduceOption_cons_of_none]
          rfl
      | some n =>
          -- after a number that is given none is missing
          have hcount : numbers.count none = 0 :=
            List.count_eq_zero.mpr fun hnone => Option.some_ne_none n (hnumber none hnone rfl)
          rw [List.count_cons_of_ne (Option.some_ne_none n), hcount, List.reduceOption_cons_of_some]
          rfl

namespace TripRecord

/-- The number of each call, if the record gives one. -/
def sequences (r : TripRecord) : List (Option Nat) :=
  r.stopTimes.map (·.stopSequence)

def sequencesInOrder (r : TripRecord) : List (Option Nat) :=
  r.callsInOrder.map (·.stopSequence)

/-- The numbers that a record gives tell the calls of its trips apart: none is given twice, and
none is taken by a call without a number. -/
structure NumbersCalls (r : TripRecord) : Prop where
  distinct : r.sequences.reduceOption.Nodup
  free : ∀ number, some number ∈ r.sequences → r.sequences.count none ≤ number

instance (r : TripRecord) : Decidable r.NumbersCalls :=
  decidable_of_iff (r.sequences.reduceOption.Nodup
      ∧ ∀ number ∈ r.sequences.reduceOption, r.sequences.count none ≤ number) <| by
    simp only [List.reduceOption_mem_iff]
    exact ⟨fun h => ⟨h.1, h.2⟩, fun h => ⟨h.distinct, h.free⟩⟩

theorem sequencesInOrder_perm (r : TripRecord) : r.sequencesInOrder.Perm r.sequences :=
  (List.mergeSort_perm ..).map _

/-- Calls without a number come first. -/
theorem pairwise_sequencesInOrder (r : TripRecord) :
    r.sequencesInOrder.Pairwise fun m n => n = none → m = none := by
  rw [sequencesInOrder, ← r.inOrder_stopTimes, List.pairwise_map]
  refine (Ordered.sort_ascends sequenceBefore_iff r.stopTimes).imp fun {s s'} hle hnone => ?_
  rw [hnone] at hle
  exact le_bot_iff.mp hle

theorem sequencesInOrder_eq_none {r : TripRecord} {i j : Nat} (hij : i < j)
    (h : r.sequencesInOrder[j]? = some none) : r.sequencesInOrder[i]? = some none := by
  obtain ⟨hj, hnone⟩ := List.getElem?_eq_some_iff.mp h
  exact List.getElem?_eq_some_iff.mpr ⟨hij.trans hj,
    List.pairwise_iff_getElem.mp r.pairwise_sequencesInOrder i j (hij.trans hj) hj hij hnone⟩

/-- The calls of a trip have the numbers of the record; one without a number has its position. -/
def Numbers (r : TripRecord) (t : Trip) : Prop :=
  t.numbers = r.sequencesInOrder.zipIdx.map fun x => x.1.getD x.2

section Numbered

variable {r : TripRecord} {t : Trip}

theorem Numbers.getElem? (h : r.Numbers t) (i : Nat) :
    t.numbers[i]? = r.sequencesInOrder[i]?.map (·.getD i) := by
  rw [h, List.getElem?_map, List.getElem?_zipIdx, Option.map_map, Nat.zero_add]
  rfl

/-- The numbers of a trip: the first positions, then what the record gives. -/
theorem Numbers.eq (h : r.Numbers t) : t.numbers
    = List.range (r.sequences.count none) ++ r.sequencesInOrder.reduceOption := by
  rw [h, map_zipIdx_getD r.pairwise_sequencesInOrder, r.sequencesInOrder_perm.count_eq,
    List.range_eq_range']

theorem Numbers.nodup_iff (h : r.Numbers t) : t.numbers.Nodup ↔ r.NumbersCalls := by
  have hgiven : r.sequencesInOrder.reduceOption.Perm r.sequences.reduceOption :=
    r.sequencesInOrder_perm.filterMap id
  rw [h.eq, List.nodup_append, hgiven.nodup_iff]
  constructor
  · rintro ⟨-, hdistinct, hne⟩
    refine ⟨hdistinct, fun number hnumber => Nat.le_of_not_lt fun hlt => ?_⟩
    exact hne number (List.mem_range.mpr hlt) number
      (hgiven.mem_iff.mpr (List.reduceOption_mem_iff.mpr hnumber)) rfl
  · rintro ⟨hdistinct, hfree⟩
    refine ⟨List.nodup_range, hdistinct, fun i hi number hnumber => ?_⟩
    have hle := hfree number (List.reduceOption_mem_iff.mp (hgiven.mem_iff.mp hnumber))
    exact Nat.ne_of_lt ((List.mem_range.mp hi).trans_le hle)

/-- A number that is given leads to its call exactly if all numbers tell calls apart: two calls
without a number have different ones anyhow. -/
theorem Numbers.finds_iff (h : r.Numbers t) :
    (∀ position number, r.sequencesInOrder[position]? = some (some number) →
        t.positionOfSequence? number = some position) ↔ t.numbers.Nodup := by
  constructor
  · intro hfinds
    refine List.nodup_iff_getElem?_ne_getElem?.mpr fun i j hij hj hsame => ?_
    cases hnumber : r.sequencesInOrder[j]? with
    | none =>
        have hnone := h.getElem? j
        rw [hnumber, Option.map_none, List.getElem?_eq_none_iff] at hnone
        exact hnone.not_gt hj
    | some given =>
        cases given with
        | none =>
            rw [h.getElem?, h.getElem?, hnumber,
              sequencesInOrder_eq_none hij hnumber] at hsame
            exact Nat.ne_of_lt hij (Option.some.inj hsame)
        | some number =>
            have hfirst := Trip.positionOfSequence?_eq_some_iff.mp (hfinds j number hnumber)
            exact hfirst.2 i hij (hsame.trans hfirst.1)
  · intro hnodup position number hnumber
    refine Trip.positionOfSequence?_of_nodup hnodup ?_
    rw [h.getElem?, hnumber]
    rfl

end Numbered

end TripRecord

/-- An update that names the number of a call in the record is about that call. -/
def Timetable.FindsCalls (t : Timetable) (key : TripKey) (r : TripRecord) : Prop :=
  ∀ position s number, r.callsInOrder[position]? = some s → s.stopSequence = some number →
    t.resolvePosition key (.sequence number) = .ok position

theorem Timetable.findsCalls_iff {t : Timetable} {key : TripKey} {trip : Trip} {r : TripRecord}
    (hkey : t.scheduledTrip? key = some trip) (h : r.Numbers trip) :
    t.FindsCalls key r ↔ r.NumbersCalls := by
  rw [← h.nodup_iff, ← h.finds_iff]
  refine forall_congr' fun position => ?_
  simp only [resolvePosition_eq_ok hkey, Trip.positionOf?, TripRecord.sequencesInOrder,
    List.getElem?_map, Option.map_eq_some_iff]
  constructor
  · rintro hfinds number ⟨s, hs, hnumber⟩
    exact hfinds s number hs hnumber
  · intro hfinds s number hs hnumber
    exact hfinds number ⟨s, hs, hnumber⟩

namespace Builder

/-- Each trip of a record has the numbers of the record. -/
theorem numbers_of_mem_runsOf {c : ServiceCalendar} {r : TripRecord} {template trip : Trip}
    (h : Trip.ofStopTimes (detailsOf c r) (inOrder r.stopTimes) = .ok template)
    {entries : List FrequencyRecord} (htrip : trip ∈ runsOf entries template) : r.Numbers trip := by
  have hschedule : trip.schedule = template.schedule := by
    cases entries with
    | nil => exact congrArg Trip.schedule (List.mem_singleton.mp htrip)
    | cons f entries =>
        obtain ⟨departure, -, rfl⟩ := List.mem_map.mp htrip
        rfl
  rw [r.inOrder_stopTimes] at h
  rw [TripRecord.Numbers, Trip.numbers, hschedule, TripRecord.sequencesInOrder]
  cases hcalls : r.callsInOrder with
  | nil => simp [hcalls, Trip.ofStopTimes] at h
  | cons first rest =>
      rw [hcalls] at h
      obtain rfl := Except.ok.inj h
      simp only [Trip.scheduleOf, List.map_map, List.zipIdx_map]
      rfl

/-- The numbers of a trip tell its calls apart, and an update that names a number of the record
finds the call that has it there, exactly if the record gives no number twice and none that is less
than how many of its calls have none. -/
theorem build_numbers_calls (zone : Zone) (es : List Entry) {t : Timetable}
    (ht : (given zone es).build.2 = .ok t) :
    let records := (es.filterMap Entry.trip?).filter fun r => decide ((given zone es).Admits r)
    let trips := fun r : TripRecord =>
      tripsOf t.calendar ((es.filterMap Entry.frequency?).filter (·.tripId == r.tripId)) r
    (t.patterns.toList.flatMap Pattern.trips).Perm (records.flatMap trips)
      ∧ ∀ r ∈ records, ∀ trip ∈ trips r, (trip.TellsCallsApart ↔ r.NumbersCalls)
        ∧ ∀ key, t.scheduledTrip? key = some trip → (t.FindsCalls key r ↔ r.NumbersCalls) := by
  intro records trips
  refine ⟨(partitions_given zone es ht).all, fun r hr trip htrip => ?_⟩
  have hadmits := of_decide_eq_true (List.mem_filter.mp hr).2
  let entries := (es.filterMap Entry.frequency?).filter (·.tripId == r.tripId)
  obtain ⟨template, htemplate, hruns⟩ := runs_of_admits hadmits t.calendar entries
  rw [show trips r = _ from hruns] at htrip
  have hnumbers := numbers_of_mem_runsOf htemplate htrip
  exact ⟨Trip.tellsCallsApart_iff.trans hnumbers.nodup_iff,
    fun key hkey => Timetable.findsCalls_iff hkey hnumbers⟩

/-- Two numbers are given and one call has none. -/
theorem nightRecords_numbered :
    (given .utc NightRecords.entries).build.2 = .ok NightRecords.timetable
      ∧ NightRecords.night.NumbersCalls
      ∧ ∃ trip, NightRecords.timetable.scheduledTrip? ⟨0, 0⟩ = some trip
        ∧ trip.numbers = [0, 20, 30] ∧ trip.TellsCallsApart
        ∧ NightRecords.timetable.FindsCalls ⟨0, 0⟩ NightRecords.night := by
  have hbuild : (given .utc NightRecords.entries).build.2 = .ok NightRecords.timetable :=
    build_eq_timetable _ _
  have hnumbers : NightRecords.night.NumbersCalls := by decide +kernel
  obtain ⟨trip, htrip⟩ : ∃ trip, NightRecords.timetable.scheduledTrip? ⟨0, 0⟩ = some trip :=
    Option.isSome_iff_exists.mp (by decide +kernel)
  have hall : ∀ found ∈ NightRecords.timetable.scheduledTrip? ⟨0, 0⟩,
      found ∈ tripsOf NightRecords.timetable.calendar
          [NightRecords.everySecond, NightRecords.everyQuarter] NightRecords.night
        ∧ found.numbers = [0, 20, 30] := by
    decide +kernel
  obtain ⟨happart, hfinds⟩ := (build_numbers_calls .utc NightRecords.entries hbuild).2
    NightRecords.night (List.mem_filter.mpr ⟨by decide +kernel, by decide +kernel⟩)
    trip (hall trip htrip).1
  exact ⟨hbuild, hnumbers, trip, htrip, (hall trip htrip).2, happart.mpr hnumbers,
    (hfinds ⟨0, 0⟩ htrip).mpr hnumbers⟩

end Builder

namespace PartlyNumbered

open Builder

/-- The call without a number comes first and gets the number that the next one has. -/
def trip : TripRecord where
  tripId := "p"
  routeId := "L"
  serviceId := "W"
  stopTimes :=
    [{ stopId := "A", arrival := 0, departure := 0 },
      { stopId := "B", arrival := 600, departure := 600, stopSequence := some 0 },
      { stopId := "C", arrival := 1200, departure := 1200, stopSequence := some 5 }]

def entries : List Entry :=
  [.stop "A" none, .stop "B" none, .stop "C" none, .serviceDates "W" [MixedRecords.day],
    .trip trip]

def timetable : Timetable :=
  (given .utc entries).timetable (by decide +kernel)

end PartlyNumbered

/-- An update that cancels the call with number 0 cancels the one before it, which has none. -/
theorem Builder.partlyNumbered_misled :
    (given .utc PartlyNumbered.entries).build.2 = .ok PartlyNumbered.timetable
      ∧ (inOrder PartlyNumbered.trip.stopTimes).map (·.stopSequence) = [none, some 0, some 5]
      ∧ (∃ trip, PartlyNumbered.timetable.scheduledTrip? ⟨0, 0⟩ = some trip
        ∧ trip.sequence? 1 = some 0 ∧ trip.positionOfSequence? 0 = some 0)
      ∧ ∃ change, LiveTrips.apply [] PartlyNumbered.timetable
          (.cancelStop "p" (.sequence 0)) = .ok change
        ∧ change.trips.map (fun x => (x.1, x.2.isCancelledAt 0, x.2.isCancelledAt 1))
          = [(⟨0, 0⟩, true, false)] := by
  have hfound : (PartlyNumbered.timetable.scheduledTrip? ⟨0, 0⟩).any (fun trip =>
      trip.sequence? 1 == some 0 && trip.positionOfSequence? 0 == some 0) = true := by
    decide +kernel
  obtain ⟨trip, htrip, hnumbers⟩ := (Option.any_eq_true ..).mp hfound
  simp only [Bool.and_eq_true, beq_iff_eq] at hnumbers
  have hchanged : (LiveTrips.apply [] PartlyNumbered.timetable
      (.cancelStop "p" (.sequence 0))).toOption.any (fun change =>
        change.trips.map (fun x => (x.1, x.2.isCancelledAt 0, x.2.isCancelledAt 1))
          == [(⟨0, 0⟩, true, false)]) = true := by
    decide +kernel
  obtain ⟨change, happly, hcancelled⟩ := Fallible.any_toOption.mp hchanged
  exact ⟨build_eq_timetable _ _, by decide +kernel, ⟨trip, htrip, hnumbers⟩, change,
    happly, beq_iff_eq.mp hcancelled⟩

end JourneyPlanner
