import JourneyPlanner.Proofs.Cancelling
import JourneyPlanner.Proofs.Partition

/-!
When a trip is found by its id. Records of a timetable have distinct ids, but the ids of
repeated trips are made up from a template and a departure, and two frequencies of one
template can make up the same.
-/

namespace JourneyPlanner

namespace Timetable

variable {t : Timetable}

/-- Every trip is the one that is found by its id. -/
def FindsTrips (t : Timetable) : Prop :=
  ∀ key trip, t.scheduledTrip? key = some trip → t.findTrip? trip.details.tripId = some key

theorem scheduledTrip?_eq_some {key : TripKey} {trip : Trip} :
    t.scheduledTrip? key = some trip
      ↔ ∃ p, t.patterns.toList[key.pattern]? = some p ∧ p.trips[key.index]? = some trip := by
  simp only [scheduledTrip?, Option.bind_eq_bind, Option.bind_eq_some_iff, Array.getElem?_toList]

/-- Where every trip is found, no two can have one id. -/
theorem FindsTrips.hasDistinctIds (h : t.FindsTrips) : t.HasDistinctIds := by
  have hfind : ∀ {i j : Nat} {p : Pattern} {id : String}, t.patterns.toList[i]? = some p →
      (p.trips.map (·.details.tripId))[j]? = some id → t.findTrip? id = some ⟨i, j⟩ := by
    intro i j p id hp hid
    rw [List.getElem?_map, Option.map_eq_some_iff] at hid
    obtain ⟨trip, htrip, rfl⟩ := hid
    exact h ⟨i, j⟩ trip (scheduledTrip?_eq_some.mpr ⟨p, hp, htrip⟩)
  refine List.nodup_flatMap.mpr ⟨fun p hp => ?_, ?_⟩
  · obtain ⟨i, hi⟩ := List.getElem?_of_mem hp
    refine List.nodup_iff_getElem?_ne_getElem?.mpr fun j j' hjj hj' heq => ?_
    have hid := List.getElem?_eq_getElem hj'
    have hsame := (hfind hi (heq.trans hid)).symm.trans (hfind hi hid)
    simp only [Option.some.injEq, TripKey.mk.injEq, true_and] at hsame
    omega
  · refine List.pairwise_iff_getElem.mpr fun i i' hi hi' hii => ?_
    refine List.disjoint_left.mpr fun id hid hid' => ?_
    obtain ⟨j, hj⟩ := List.getElem?_of_mem hid
    obtain ⟨j', hj'⟩ := List.getElem?_of_mem hid'
    have hsame := (hfind (List.getElem?_eq_getElem hi) hj).symm.trans
      (hfind (List.getElem?_eq_getElem hi') hj')
    simp only [Option.some.injEq, TripKey.mk.injEq] at hsame
    omega

end Timetable

namespace Builder

variable {b : Builder} {t : Timetable}

theorem findsTrips_iff (ht : b.build.2 = .ok t) : t.FindsTrips ↔ t.HasDistinctIds := by
  refine ⟨Timetable.FindsTrips.hasDistinctIds, fun hdistinct key trip htrip => ?_⟩
  obtain ⟨p, hp, hplace⟩ := Timetable.scheduledTrip?_eq_some.mp htrip
  have hmem : (trip.details.tripId, key) ∈ t.tripIndex := by
    simp only [tripIndex_build ht, tripIndexOf, List.mem_reverse, List.mem_flatMap, List.mem_map,
      Prod.mk.injEq]
    exact ⟨(p, key.pattern), List.mk_mem_zipIdx_iff_getElem?.mpr hp, (trip, key.index),
      List.mk_mem_zipIdx_iff_getElem?.mpr hplace, rfl, rfl⟩
  obtain ⟨key', hfind⟩ := Option.isSome_iff_exists.mp (Association.find?_isSome_of_mem hmem)
  obtain ⟨trip', htrip', hid⟩ := findTrip?_build ht hfind
  rw [← hdistinct.key_eq htrip' htrip hid]
  exact hfind

/-- Ids of the trips a record runs as. -/
def idsOf (entries : List FrequencyRecord) (r : TripRecord) : List String :=
  match entries with
  | [] => [r.tripId]
  | _ :: _ => (entries.flatMap FrequencyRecord.departures).map fun departure =>
    r.tripId ++ "#" ++ toString departure

theorem ids_tripsOf {r : TripRecord} (h : b.Admits r) (c : ServiceCalendar)
    (entries : List FrequencyRecord) :
    (tripsOf c entries r).map (·.details.tripId) = idsOf entries r := by
  obtain ⟨trip, htrip, hruns⟩ := runs_of_admits h c entries
  have hdetails := (Trip.times_ofStopTimes htrip).1
  rw [hruns]
  cases entries with
  | nil => simp only [runsOf, idsOf, List.map_cons, List.map_nil, hdetails, detailsOf]
  | cons f entries =>
      simp only [runsOf, idsOf, repetitions, List.map_map]
      refine List.map_congr_left fun departure _ => ?_
      simp only [Function.comp_apply, Trip.startingAt, hdetails, detailsOf]

theorem ids_of_partitions {records : List TripRecord} {c : ServiceCalendar}
    {entries : TripRecord → List FrequencyRecord} (hrecords : ∀ r ∈ records, b.Admits r)
    (h : t.Partitions b records fun r => tripsOf c (entries r) r) :
    t.HasDistinctIds ↔ (records.flatMap fun r => idsOf (entries r) r).Nodup := by
  have hids := h.all.map (·.details.tripId)
  rw [List.map_flatMap, List.map_flatMap,
    List.flatMap_congr fun r hr => ids_tripsOf (hrecords r hr) c (entries r)] at hids
  exact hids.nodup_iff

/-- Every trip of a timetable is found by its id exactly if the ids made up for repeated trips
differ from each other and from those of records. -/
theorem findsTrips_iff_ids_nodup (zone : Zone) (es : List Entry) {t : Timetable}
    (ht : (given zone es).build.2 = .ok t) :
    let accepted := (es.filterMap Entry.trip?).filter fun r => decide ((given zone es).Admits r)
    let entries := fun r : TripRecord =>
      (es.filterMap Entry.frequency?).filter (·.tripId == r.tripId)
    (t.FindsTrips ↔ (accepted.flatMap fun r => idsOf (entries r) r).Nodup)
      ∧ ((∀ r ∈ accepted, entries r = []) → t.FindsTrips) := by
  intro accepted entries
  have haccepted : ∀ r ∈ accepted, (given zone es).Admits r :=
    fun r hr => of_decide_eq_true (List.mem_filter.mp hr).2
  have hfound : t.FindsTrips ↔ (accepted.flatMap fun r => idsOf (entries r) r).Nodup :=
    (findsTrips_iff ht).trans (ids_of_partitions haccepted (partitions_given zone es ht))
  refine ⟨hfound, fun hnone => hfound.mpr ?_⟩
  have hids : (accepted.flatMap fun r => idsOf (entries r) r) = accepted.map TripRecord.tripId := by
    rw [List.flatMap_congr fun r hr => congrArg (idsOf · r) (hnone r hr)]
    exact List.map_eq_flatMap.symm
  rw [hids]
  exact (ids_nodup_given zone es ht).sublist (List.filter_sublist.map _)

theorem mixedRecords_found :
    (given .utc MixedRecords.entries).build.2 = .ok MixedRecords.timetable
      ∧ MixedRecords.timetable.FindsTrips := by
  refine ⟨MixedRecords.build_entries, ?_⟩
  exact (findsTrips_iff_ids_nodup .utc MixedRecords.entries MixedRecords.build_entries).1.mpr
    (by decide +kernel)

end Builder

namespace OverlappingFrequencies

open Builder

/-- Both frequencies have the template depart at 22500. -/
def entries : List Entry :=
  [.stop "A" none, .stop "B" none, .serviceDates "W" [MixedRecords.day],
    .trip (MixedRecords.trip "f" ["A", "B"] 0), .frequency ⟨"f", 21600, 23400, 900, true⟩,
    .frequency ⟨"f", 22500, 24300, 900, true⟩]

def timetable : Timetable :=
  (given .utc entries).timetable (by decide +kernel)

end OverlappingFrequencies

/-- Two trips have the id "f#22500", and one of them is not found by it. -/
theorem Builder.overlappingFrequencies_not_found :
    (given .utc OverlappingFrequencies.entries).build.2 = .ok OverlappingFrequencies.timetable
      ∧ ∃ key trip, OverlappingFrequencies.timetable.scheduledTrip? key = some trip
        ∧ trip.details.tripId = "f#22500"
        ∧ OverlappingFrequencies.timetable.findTrip? "f#22500" ≠ some key := by
  have hid : (OverlappingFrequencies.timetable.scheduledTrip? ⟨0, 1⟩).any
      (fun trip => trip.details.tripId == "f#22500") = true := by
    decide +kernel
  obtain ⟨trip, htrip, hid⟩ := (Option.any_eq_true ..).mp hid
  exact ⟨build_eq_timetable _ _, ⟨0, 1⟩, trip, htrip, beq_iff_eq.mp hid, by decide +kernel⟩

end JourneyPlanner
