import JourneyPlanner.Proofs.TripIds

/-!
The order in which trips, frequencies and walks are given makes no difference to a timetable.
Patterns, the trips of a pattern and the walks at a stop are sorted by what tells them apart, so
that it is enough to have the same of each.
-/

namespace JourneyPlanner

namespace Walks

variable {walks walks' : List Walk}

/-- The same walks in any order make the same table, up to the order of its entries. -/
theorem shortest_perm (h : walks.Perm walks') : (shortest walks).Perm (shortest walks') := by
  refine (List.perm_ext_iff_of_nodup (.of_map _ (nodup_keys_shortest walks))
    (.of_map _ (nodup_keys_shortest walks'))).mpr ?_
  rintro ⟨⟨source, target⟩, duration⟩
  simp only [mem_shortest, h.mem_iff]

theorem before_iff (a b : Transfer) :
    before a b = true ↔ toLex (a.target, a.duration) < toLex (b.target, b.duration) := by
  simp only [before, Bool.or_eq_true, Bool.and_eq_true, decide_eq_true_eq, beq_iff_eq,
    Prod.Lex.toLex_lt_toLex]

theorem sort_eq_of_perm {ts ts' : List Transfer} (h : ts.Perm ts') :
    Ordered.sort before ts = Ordered.sort before ts' := by
  refine Ordered.sort_eq_of_perm before_iff h fun a _ b _ hab => ?_
  obtain ⟨htarget, hduration⟩ := Prod.mk.inj (toLex_inj.mp hab)
  exact Transfer.mk.injEq .. ▸ ⟨htarget, hduration⟩

variable {table table' : List ((Nat × Nat) × Time)}

theorem outgoing_eq_of_perm (h : table.Perm table') (numStops : Nat) :
    outgoing table numStops = outgoing table' numStops := by
  refine congrArg Rows.ofLists (List.map_congr_left fun stop _ => ?_)
  exact sort_eq_of_perm ((h.filter _).map _)

theorem incoming_eq_of_perm (h : table.Perm table') (numStops : Nat) :
    incoming table numStops = incoming table' numStops := by
  refine congrArg Rows.ofLists (List.map_congr_left fun stop _ => ?_)
  exact sort_eq_of_perm ((h.filter _).map _)

end Walks

namespace Builder

section Patterns

variable {accepted accepted' : List Accepted}

theorem keysOf_congr (h : ∀ key, (∃ a ∈ accepted, a.key = key) ↔ ∃ a ∈ accepted', a.key = key) :
    keysOf accepted = keysOf accepted' := by
  have hdistinct : ((accepted.map (·.key)).eraseDups).Perm ((accepted'.map (·.key)).eraseDups) := by
    refine (List.perm_ext_iff_of_nodup (nodup_eraseDups _) (nodup_eraseDups _)).mpr fun key => ?_
    simp only [List.mem_eraseDups, List.mem_map, h]
  refine Ordered.sort_eq_of_perm PatternKey.before_iff hdistinct fun a _ b _ hab => ?_
  obtain ⟨hroute, hstops⟩ := Prod.mk.inj (toLex_inj.mp hab)
  exact PatternKey.mk.injEq .. ▸ ⟨hroute, hstops⟩

/-- Patterns are known by their keys and by which trips each of them has. -/
theorem patternsOf_congr
    (hkeys : ∀ key, (∃ a ∈ accepted, a.key = key) ↔ ∃ a ∈ accepted', a.key = key)
    (htrips : ∀ key, ((accepted.filter fun a => decide (a.key = key)).flatMap (·.trips)).Perm
      ((accepted'.filter fun a => decide (a.key = key)).flatMap (·.trips)))
    (hids : ((accepted.flatMap (·.trips)).map (·.details.tripId)).Nodup) :
    patternsOf accepted = patternsOf accepted' := by
  have hsorted : ∀ key,
      Ordered.sort tripBefore ((accepted.filter fun a => decide (a.key = key)).flatMap (·.trips))
      = Ordered.sort tripBefore
        ((accepted'.filter fun a => decide (a.key = key)).flatMap (·.trips)) := by
    intro key
    refine Ordered.sort_eq_of_perm tripBefore_iff (htrips key) fun t ht t' ht' htt => ?_
    have hmem : ∀ s ∈ (accepted.filter fun a => decide (a.key = key)).flatMap (·.trips),
        s ∈ accepted.flatMap (·.trips) := by
      intro s hs
      obtain ⟨a, ha, hs⟩ := List.mem_flatMap.mp hs
      exact List.mem_flatMap.mpr ⟨a, (List.mem_filter.mp ha).1, hs⟩
    exact List.inj_on_of_nodup_map hids (hmem t ht) (hmem t' ht') (Prod.mk.inj (toLex_inj.mp htt)).2
  simp only [patternsOf, keysOf_congr hkeys]
  refine List.map_congr_left fun x _ => ?_
  simp only [patternAt, hsorted]

end Patterns

/-- The same records, trips, frequencies and transfers in another order. -/
structure Reorders (es es' : List Entry) : Prop where
  ground : es.filter Entry.isGround = es'.filter Entry.isGround
  trips : (es.filterMap Entry.trip?).Perm (es'.filterMap Entry.trip?)
  frequencies : (es.filterMap Entry.frequency?).Perm (es'.filterMap Entry.frequency?)
  transfers : (es.filterMap Entry.transfer?).Perm (es'.filterMap Entry.transfer?)

section Reordered

variable {b b' : Builder} {zone : Zone} {es es' : List Entry} {t : Timetable}

theorem SharesGround.admits (h : b.SharesGround b') (r : TripRecord) :
    b'.Admits r ↔ b.Admits r := by
  rw [admits_iff, admits_iff, h.findStop?]

theorem SharesGround.keyOf (h : b.SharesGround b') (r : TripRecord) : b'.keyOf r = b.keyOf r := by
  rw [Builder.keyOf, Builder.keyOf, h.findStop?]

theorem SharesGround.walk? (h : b.SharesGround b') : b'.walk? = b.walk? := by
  funext w
  rw [Builder.walk?, Builder.walk?, h.findStop?]

/-- Trips depend on which frequencies repeat them, not on their order. -/
theorem tripsOf_perm {entries entries' : List FrequencyRecord} (h : entries.Perm entries')
    (c : ServiceCalendar) (r : TripRecord) : (tripsOf c entries r).Perm (tripsOf c entries' r) := by
  refine List.Perm.flatMap (.refl _) fun trip _ => ?_
  cases entries with
  | nil => rw [h.nil_eq]
  | cons f entries =>
      cases entries' with
      | nil => exact absurd h.symm (List.not_perm_nil_cons _ _)
      | cons f' entries' => exact (h.flatMap_right _).map _

theorem Collects.walks_perm (hb : b.Collects es) (hb' : b'.Collects es')
    (hshares : b.SharesGround b') (h : Reorders es es') :
    b.walks.toList.Perm b'.walks.toList := by
  have hsome : (b.walks.toList.map some).Perm (b'.walks.toList.map some) := by
    rw [hb.walks, hb'.walks, hshares.walk?]
    exact h.transfers.map _
  simpa only [List.filterMap_map, Function.id_comp, List.filterMap_some] using hsome.filterMap id

/-- With all services registered a timetable has the calendar of its builder. -/
theorem calendar_build (hb : b.Collects es) (ht : b.build.2 = .ok t)
    (h : ∀ r ∈ b.trips.toList, r.serviceId ∈ b.calendar.serviceIds) : t.calendar = b.calendar := by
  obtain ⟨a, -, htakes, -, rfl⟩ := takesIn_build hb ht
  exact htakes.calendar h

theorem ids_takenIn (hb : b.Collects es) (c : ServiceCalendar) :
    ((b.takenIn c).flatMap (·.trips)).map (·.details.tripId)
      = ((es.filterMap Entry.trip?).filter fun r => decide (b.Admits r)).flatMap fun r =>
        idsOf ((es.filterMap Entry.frequency?).filter (·.tripId == r.tripId)) r := by
  rw [takenIn, List.flatMap_map, List.map_flatMap, hb.trips]
  refine List.flatMap_congr fun r hr => ?_
  rw [← hb.entriesFor]
  exact ids_tripsOf (of_decide_eq_true (List.mem_filter.mp hr).2) c _

theorem patternsOf_takenIn (hb : b.Collects es) (hb' : b'.Collects es')
    (hshares : b.SharesGround b') (h : Reorders es es') (c : ServiceCalendar)
    (hids : (((es.filterMap Entry.trip?).filter fun r => decide (b.Admits r)).flatMap fun r =>
      idsOf ((es.filterMap Entry.frequency?).filter (·.tripId == r.tripId)) r).Nodup) :
    patternsOf (b.takenIn c) = patternsOf (b'.takenIn c) := by
  have hrecords : (b.trips.toList.filter fun r => decide (b.Admits r)).Perm
      (b'.trips.toList.filter fun r => decide (b'.Admits r)) := by
    simp only [hb.trips, hb'.trips, hshares.admits]
    exact h.trips.filter _
  refine patternsOf_congr (fun key => ?_) (fun key => ?_) ?_
  · simp only [takenIn, List.mem_map, exists_exists_and_eq_and, taken, hshares.keyOf,
      hrecords.mem_iff]
  · rw [flatMap_takenIn, flatMap_takenIn]
    simp only [hshares.keyOf]
    refine List.Perm.flatMap (hrecords.filter _) fun r _ => tripsOf_perm ?_ c r
    rw [hb.entriesFor, hb'.entriesFor]
    exact h.frequencies.filter _
  · rwa [ids_takenIn hb]

/-- Trips, frequencies and walks can be given in any order. If all services are registered and
no two trips have one id, both builders make the same timetable. -/
theorem build_of_reordered (hb : ofEntries zone es = .ok b) (hb' : ofEntries zone es' = .ok b')
    (h : Reorders es es')
    (hservices : ∀ r ∈ es.filterMap Entry.trip?, r.serviceId ∈ b.calendar.serviceIds)
    (hrecords : ((es.filterMap Entry.trip?).map TripRecord.tripId).Nodup)
    (hids : (((es.filterMap Entry.trip?).filter fun r => decide (b.Admits r)).flatMap fun r =>
      idsOf ((es.filterMap Entry.frequency?).filter (·.tripId == r.tripId)) r).Nodup) :
    ∃ t, b.build.2 = .ok t ∧ b'.build.2 = .ok t := by
  have hshares := sharesGround_ofEntries hb hb' h.ground
  have hcollects := collects_ofEntries hb
  have hcollects' := collects_ofEntries hb'
  obtain ⟨t, ht⟩ := (build_succeeds_iff hcollects).mpr (by rwa [hcollects.trips])
  obtain ⟨t', ht'⟩ := (build_succeeds_iff hcollects').mpr <| by
    rw [hcollects'.trips]
    exact (h.trips.map _).nodup_iff.mp hrecords
  have hcalendar := calendar_build hcollects ht (by rwa [hcollects.trips])
  have hcalendar' : t'.calendar = b'.calendar := by
    refine calendar_build hcollects' ht' fun r hr => ?_
    rw [hcollects'.trips] at hr
    rw [hshares.calendar]
    exact hservices r (h.trips.mem_iff.mpr hr)
  have hpatterns := patternsOf_takenIn hcollects hcollects' hshares h b.calendar hids
  have hwalks := Walks.shortest_perm (hcollects.walks_perm hcollects' hshares h)
  have heq := build_eq_timetableOf hcollects ht
  have heq' := build_eq_timetableOf hcollects' ht'
  rw [hcalendar] at heq
  rw [hcalendar', hshares.calendar] at heq'
  have hsame : b'.timetableOf b.calendar (b'.takenIn b.calendar)
      = b.timetableOf b.calendar (b.takenIn b.calendar) := by
    simp only [timetableOf, hshares.stops, hshares.zone, hpatterns,
      Walks.outgoing_eq_of_perm hwalks, Walks.incoming_eq_of_perm hwalks]
  refine ⟨t, ht, ?_⟩
  rw [ht', heq, heq', hsame]

end Reordered

end Builder

namespace MixedRecords

open Builder

def withWalks : List Entry :=
  entries ++ [.transfer "A" "B" 300, .transfer "A" "B" 120, .transfer "B" "A" 60]

/-- The same records, the last ones first as far as stops have to be known. -/
def reordered : List Entry :=
  [.frequency ⟨"shuttle", 21600, 23400, 900, true⟩, .trip (trip "short" ["A"] 10000),
    .stop "A" none, .stop "B" none, .transfer "B" "A" 60, .transfer "A" "B" 120,
    .trip (trip "loop" ["A", "B", "A"] 20000), .serviceDates "W" [day],
    .transfer "A" "B" 300, .trip (trip "shuttle" ["A", "B"] 0), .trip (trip "late" ["A", "B"] 30000)]

theorem reorders : Reorders withWalks reordered where
  ground := rfl
  trips := by decide +kernel
  frequencies := by decide +kernel
  transfers := by decide +kernel

end MixedRecords

theorem Builder.mixedRecords_reordered : ∃ b b' t,
    ofEntries .utc MixedRecords.withWalks = .ok b
      ∧ ofEntries .utc MixedRecords.reordered = .ok b'
      ∧ b.build.2 = .ok t ∧ b'.build.2 = .ok t := by
  have hgiven : (ofEntries .utc MixedRecords.withWalks).toOption.any (fun b =>
      decide (∀ r ∈ MixedRecords.withWalks.filterMap Entry.trip?,
        r.serviceId ∈ b.calendar.serviceIds)
      && decide (((MixedRecords.withWalks.filterMap Entry.trip?).filter fun r =>
        decide (b.Admits r)).flatMap fun r =>
          idsOf ((MixedRecords.withWalks.filterMap Entry.frequency?).filter
            (·.tripId == r.tripId)) r).Nodup) = true := by
    decide +kernel
  have hgiven' : (ofEntries .utc MixedRecords.reordered).toOption.any (fun _ => true) = true := by
    decide +kernel
  obtain ⟨b, hb, hfacts⟩ := Fallible.any_toOption.mp hgiven
  obtain ⟨b', hb', -⟩ := Fallible.any_toOption.mp hgiven'
  rw [Bool.and_eq_true, decide_eq_true_eq, decide_eq_true_eq] at hfacts
  obtain ⟨t, ht, ht'⟩ := build_of_reordered hb hb' MixedRecords.reorders hfacts.1
    (by decide +kernel) hfacts.2
  exact ⟨b, b', t, hb, hb', ht, ht'⟩

namespace SkippedRecord

open Builder

open MixedRecords (day trip)

/-- Two records have one id, and only one of them has calls enough for a trip. -/
def entries : List Entry :=
  [.stop "A" none, .stop "B" none, .serviceDates "W" [day], .trip (trip "f" ["A", "B"] 0),
    .trip (trip "f" ["A"] 0)]

def reordered : List Entry :=
  [.stop "A" none, .stop "B" none, .serviceDates "W" [day], .trip (trip "f" ["A"] 0),
    .trip (trip "f" ["A", "B"] 0)]

theorem reorders : Reorders entries reordered where
  ground := rfl
  trips := by decide +kernel
  frequencies := by decide +kernel
  transfers := by decide +kernel

end SkippedRecord

/-- A record that makes no trip keeps its id from others all the same. -/
theorem Builder.skippedRecord_refused : Reorders SkippedRecord.entries SkippedRecord.reordered
    ∧ ∃ b b', ofEntries .utc SkippedRecord.entries = .ok b
      ∧ ofEntries .utc SkippedRecord.reordered = .ok b'
      ∧ (∀ r ∈ SkippedRecord.entries.filterMap Entry.trip?, r.serviceId ∈ b.calendar.serviceIds)
      ∧ (((SkippedRecord.entries.filterMap Entry.trip?).filter fun r =>
          decide (b.Admits r)).flatMap fun r => idsOf ((SkippedRecord.entries.filterMap
            Entry.frequency?).filter (·.tripId == r.tripId)) r) = ["f"]
      ∧ b.build.2.toOption = none ∧ b'.build.2.toOption = none := by
  have hgiven : (ofEntries .utc SkippedRecord.entries).toOption.any (fun b =>
      decide (∀ r ∈ SkippedRecord.entries.filterMap Entry.trip?, r.serviceId ∈ b.calendar.serviceIds)
      && decide ((((SkippedRecord.entries.filterMap Entry.trip?).filter fun r =>
        decide (b.Admits r)).flatMap fun r => idsOf ((SkippedRecord.entries.filterMap
          Entry.frequency?).filter (·.tripId == r.tripId)) r) = ["f"])
      && b.build.2.toOption.isNone) = true := by
    decide +kernel
  have hgiven' : (ofEntries .utc SkippedRecord.reordered).toOption.any
      (fun b => b.build.2.toOption.isNone) = true := by decide +kernel
  obtain ⟨b, hb, hfacts⟩ := Fallible.any_toOption.mp hgiven
  obtain ⟨b', hb', hfails'⟩ := Fallible.any_toOption.mp hgiven'
  simp only [Bool.and_eq_true, decide_eq_true_eq, Option.isNone_iff_eq_none] at hfacts hfails'
  obtain ⟨⟨hservices, hids⟩, hfails⟩ := hfacts
  exact ⟨SkippedRecord.reorders, b, b', hb, hb', hservices, hids, hfails, hfails'⟩

end JourneyPlanner
