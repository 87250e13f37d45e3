import JourneyPlanner.Proofs.Records
import Mathlib.Data.List.Chain

/-!
Which records a timetable is made from, and what it takes from each of them. A record is
judged by its own calls and the stops that are known, not by the records before it; of those
only the services they were the first to use are still seen.
-/

namespace JourneyPlanner

/-- Of calls that do not stand still only next ones need to be compared. -/
theorem chronological_iff_isChain {calls : List Call} :
    Chronological calls ↔ (∀ c ∈ calls, c.arrival ≤ c.departure)
      ∧ calls.IsChain fun c d => c.departure ≤ d.arrival := by
  refine ⟨fun h => ⟨h.dwell, h.run.isChain⟩, ?_⟩
  induction calls with
  | nil => exact fun _ => ⟨by simp, .nil⟩
  | cons c calls ih =>
      rintro ⟨hdwell, hrun⟩
      obtain ⟨hc, hdwell⟩ := List.forall_mem_cons.mp hdwell
      obtain ⟨hnext, hrun⟩ := List.isChain_cons.mp hrun
      exact (ih ⟨hdwell, hrun⟩).cons hc hnext

/-- When a call begins and ends, as 32 bits keep it; times that were read fit there. -/
def StopTimeRecord.times (s : StopTimeRecord) : Time × Time :=
  (Time.wrap s.arrival, Time.wrap s.departure)

namespace Trip

theorem getElem?_scheduleOf (shift : Time) (stopTimes : List StopTimeRecord) (i : Nat) :
    (scheduleOf shift stopTimes)[i]? = stopTimes[i]?.map fun s =>
      { arrival := Time.wrap (s.arrival - shift), departure := Time.wrap (s.departure - shift)
        sequence := s.stopSequence.getD i, pickup := s.pickup, dropOff := s.dropOff
        isTimepoint := s.isTimepoint } := by
  simp only [scheduleOf, List.getElem?_map, List.getElem?_zipIdx, Option.map_map, Nat.zero_add]
  rfl

/-- Taking the shift off and adding it again leaves the times of the record. -/
theorem times_ofStopTimes {details : TripDetails} {stopTimes : List StopTimeRecord} {t : Trip}
    (h : ofStopTimes details stopTimes = .ok t) :
    t.details = details ∧ t.calls.map Call.times = stopTimes.map StopTimeRecord.times := by
  cases stopTimes with
  | nil => simp [ofStopTimes] at h
  | cons s rest =>
      obtain rfl := Except.ok.inj h
      refine ⟨rfl, List.ext_getElem? fun i => ?_⟩
      simp only [calls, Option.getD_none, scheduledCalls, List.getElem?_map, getElem?_scheduleOf,
        Option.map_map]
      refine Option.map_congr fun s' _ => ?_
      simp only [Function.comp_apply, Call.times, StopTimeRecord.times, ScheduledCall.shiftedBy,
        Time.wrap_wrap_add, Int.sub_add_cancel]

theorem decrease?_ofStopTimes {details : TripDetails} {stopTimes : List StopTimeRecord} {t : Trip}
    (h : ofStopTimes details stopTimes = .ok t) :
    t.decrease? = none ↔ (∀ s ∈ stopTimes, s.times.1 ≤ s.times.2)
      ∧ stopTimes.IsChain fun s s' => s.times.2 ≤ s'.times.1 := by
  have htimes := (times_ofStopTimes h).2
  have hdwell : (∀ c ∈ t.calls, c.arrival ≤ c.departure)
      ↔ ∀ s ∈ stopTimes, s.times.1 ≤ s.times.2 := by
    have hmap := List.forall_mem_map (f := Call.times) (l := t.calls) (P := fun x => x.1 ≤ x.2)
    rw [htimes, List.forall_mem_map] at hmap
    exact hmap.symm
  have hrun : (t.calls.IsChain fun c d => c.departure ≤ d.arrival)
      ↔ stopTimes.IsChain fun s s' => s.times.2 ≤ s'.times.1 := by
    have hmap := List.isChain_map (R := fun x y : Time × Time => x.2 ≤ y.1) Call.times (l := t.calls)
    rw [htimes, List.isChain_map] at hmap
    exact hmap.symm
  rw [decrease?_eq_none_iff, chronological_iff_isChain, hdwell, hrun]

end Trip

namespace ServiceCalendar

variable {c c' : ServiceCalendar} {serviceId : String}

theorem register_of_mem (h : serviceId ∈ c.serviceIds) : (c.register serviceId).2 = c := by
  unfold register
  cases hfind : c.serviceIds.findIdx? (· == serviceId) with
  | some code => rfl
  | none => simpa [h] using List.findIdx?_eq_none_iff.mp hfind serviceId h

theorem mem_register : serviceId ∈ (c.register serviceId).2.serviceIds := by
  unfold register
  cases hfind : c.serviceIds.findIdx? (· == serviceId) with
  | some code =>
      obtain ⟨hlt, hid, -⟩ := List.findIdx?_eq_some_iff_getElem.mp hfind
      exact beq_iff_eq.mp hid ▸ List.getElem_mem hlt
  | none => simp

theorem longer_register : c.serviceIds <+: (c.register serviceId).2.serviceIds := by
  unfold register
  cases c.serviceIds.findIdx? (· == serviceId) with
  | some code => exact List.prefix_refl _
  | none => exact List.prefix_append _ _

/-- The code of a service stands for it. -/
theorem serviceId?_register (h : serviceId ∈ c.serviceIds) :
    c.serviceId? (c.register serviceId).1 = some serviceId := by
  unfold register
  cases hfind : c.serviceIds.findIdx? (· == serviceId) with
  | some code =>
      obtain ⟨hlt, hid, -⟩ := List.findIdx?_eq_some_iff_getElem.mp hfind
      exact (List.getElem?_eq_getElem hlt).trans (congrArg some (beq_iff_eq.mp hid))
  | none => simpa [h] using List.findIdx?_eq_none_iff.mp hfind serviceId h

/-- A service keeps its code when others are registered. -/
theorem code_of_longer (h : serviceId ∈ c.serviceIds) (hlonger : c.serviceIds <+: c'.serviceIds) :
    (c'.register serviceId).1 = (c.register serviceId).1 := by
  obtain ⟨later, hlater⟩ := hlonger
  unfold register
  rw [← hlater, List.findIdx?_append]
  cases hfind : c.serviceIds.findIdx? (· == serviceId) with
  | some code => rfl
  | none => simpa [h] using List.findIdx?_eq_none_iff.mp hfind serviceId h

theorem code_register :
    ((c.register serviceId).2.register serviceId).1 = (c.register serviceId).1 := by
  unfold register
  cases hfind : c.serviceIds.findIdx? (· == serviceId) with
  | some code => simp [hfind]
  | none => simp [List.findIdx?_append, hfind]

end ServiceCalendar

namespace Builder

/-- Two calls or more, all at known stops, and times that do not decrease from call to call. -/
structure Admits (b : Builder) (r : TripRecord) : Prop where
  calls : 2 ≤ r.stopTimes.length
  known : ∀ s ∈ r.stopTimes, (b.findStop? s.stopId).isSome = true
  dwell : ∀ s ∈ r.stopTimes, s.times.1 ≤ s.times.2
  run : (inOrder r.stopTimes).IsChain fun s s' => s.times.2 ≤ s'.times.1

theorem admits_iff {b : Builder} {r : TripRecord} :
    b.Admits r ↔ 2 ≤ r.stopTimes.length
      ∧ (∀ s ∈ r.stopTimes, (b.findStop? s.stopId).isSome = true)
      ∧ (∀ s ∈ r.stopTimes, s.times.1 ≤ s.times.2)
      ∧ (inOrder r.stopTimes).IsChain fun s s' => s.times.2 ≤ s'.times.1 :=
  ⟨fun ⟨hcalls, hknown, hdwell, hrun⟩ => ⟨hcalls, hknown, hdwell, hrun⟩,
    fun ⟨hcalls, hknown, hdwell, hrun⟩ => ⟨hcalls, hknown, hdwell, hrun⟩⟩

instance (b : Builder) (r : TripRecord) : Decidable (b.Admits r) :=
  decidable_of_iff' _ admits_iff

/-- Route and stops of a record. -/
def keyOf (b : Builder) (r : TripRecord) : PatternKey where
  routeId := r.routeId
  stops := (inOrder r.stopTimes).filterMap fun s => b.findStop? s.stopId

def detailsOf (c : ServiceCalendar) (r : TripRecord) : TripDetails where
  tripId := r.tripId
  routeId := r.routeId
  serviceCode := (c.register r.serviceId).1
  headsign := r.headsign
  wheelchair := r.wheelchair
  bikes := r.bikes

/-- The trip of a record; there is none without calls. -/
def template? (c : ServiceCalendar) (r : TripRecord) : Option Trip :=
  (Trip.ofStopTimes (detailsOf c r) (inOrder r.stopTimes)).toOption

/-- A trip runs by itself, unless there are frequencies that repeat it. -/
def runsOf (entries : List FrequencyRecord) (trip : Trip) : List Trip :=
  match entries with
  | [] => [trip]
  | _ :: _ => repetitions trip entries

def tripsOf (c : ServiceCalendar) (entries : List FrequencyRecord) (r : TripRecord) : List Trip :=
  (template? c r).toList.flatMap (runsOf entries)

/-- What is taken in from a record. -/
def taken (b : Builder) (c : ServiceCalendar) (r : TripRecord) : Accepted where
  key := b.keyOf r
  trips := tripsOf c (b.entriesFor r.tripId) r

section Judging

variable {b : Builder} {es : List Entry} {r : TripRecord}

theorem stopsOf_of_known {stopTimes : List StopTimeRecord}
    (h : ∀ s ∈ stopTimes, (b.findStop? s.stopId).isSome = true) :
    b.stopsOf stopTimes = .ok (stopTimes.filterMap fun s => b.findStop? s.stopId) := by
  induction stopTimes with
  | nil => rfl
  | cons s rest ih =>
      obtain ⟨hs, hrest⟩ := List.forall_mem_cons.mp h
      obtain ⟨index, hindex⟩ := Option.isSome_iff_exists.mp hs
      simp only [stopsOf, hindex, ih hrest, List.filterMap_cons]

theorem known_of_stopsOf {stopTimes : List StopTimeRecord} {stops : List Nat}
    (h : b.stopsOf stopTimes = .ok stops) :
    ∀ s ∈ stopTimes, (b.findStop? s.stopId).isSome = true := by
  induction stopTimes generalizing stops with
  | nil => simp
  | cons s rest ih =>
      unfold stopsOf at h
      cases hindex : b.findStop? s.stopId with
      | none => simp [hindex] at h
      | some index =>
          cases hrest : b.stopsOf rest with
          | error id => simp [hindex, hrest] at h
          | ok indices => exact List.forall_mem_cons.mpr ⟨by simp [hindex], ih hrest⟩

/-- Frequencies of an id, if any have been collected. -/
theorem Collects.runsOf (hb : b.Collects es) (tripId : String) (trip : Trip) :
    (match Association.find? tripId b.frequencies with
      | some entries => repetitions trip entries
      | none => [trip]) = runsOf (b.entriesFor tripId) trip := by
  rw [hb.entriesFor, hb.frequencies]
  cases (es.filterMap Entry.frequency?).filter (·.tripId == tripId) <;> rfl

theorem template?_eq_some {c : ServiceCalendar} {trip : Trip} :
    template? c r = some trip ↔
      Trip.ofStopTimes (detailsOf c r) (inOrder r.stopTimes) = .ok trip :=
  Fallible.toOption_eq_some

theorem length_inOrder (stopTimes : List StopTimeRecord) :
    (inOrder stopTimes).length = stopTimes.length :=
  (Ordered.sort_perm _ _).length_eq

theorem mem_inOrder {stopTimes : List StopTimeRecord} {s : StopTimeRecord} :
    s ∈ inOrder stopTimes ↔ s ∈ stopTimes :=
  Ordered.mem_sort _ _ _

/-- A record with calls has a trip. -/
theorem template?_isSome (c : ServiceCalendar) (h : 2 ≤ r.stopTimes.length) :
    ∃ trip, template? c r = some trip := by
  unfold template? Trip.ofStopTimes
  cases hcalls : inOrder r.stopTimes with
  | nil =>
      have hlength := length_inOrder r.stopTimes
      rw [hcalls, List.length_nil] at hlength
      omega
  | cons s rest => exact ⟨_, rfl⟩

theorem admits_iff_decrease? {c : ServiceCalendar} {trip : Trip} {stops : List Nat}
    (hcalls : 2 ≤ r.stopTimes.length) (hstops : b.stopsOf (inOrder r.stopTimes) = .ok stops)
    (htrip : template? c r = some trip) : b.Admits r ↔ trip.decrease? = none := by
  rw [Trip.decrease?_ofStopTimes (template?_eq_some.mp htrip)]
  simp only [mem_inOrder]
  have hknown := known_of_stopsOf hstops
  simp only [mem_inOrder] at hknown
  exact ⟨fun h => ⟨h.dwell, h.run⟩, fun h => ⟨hcalls, hknown, h.1, h.2⟩⟩

namespace Assembly

variable {a a' a'' : Assembly} {rs rs' : List TripRecord}

/-- What has become of an assembly that took in some records. -/
structure TakesIn (b : Builder) (a : Assembly) (rs : List TripRecord) (a' : Assembly) : Prop where
  services : a.calendar.serviceIds <+: a'.calendar.serviceIds
  registered : ∀ r ∈ rs, b.Admits r → r.serviceId ∈ a'.calendar.serviceIds
  calendar : (∀ r ∈ rs, r.serviceId ∈ a.calendar.serviceIds) → a'.calendar = a.calendar
  accepted : a'.accepted.toList =
    a.accepted.toList ++ (rs.filter fun r => decide (b.Admits r)).map (b.taken a'.calendar)
  skipped : a'.skipped = a.skipped + rs.countP fun r => !decide (b.Admits r)

theorem TakesIn.nil : a.TakesIn b [] a where
  services := List.prefix_refl _
  registered := by simp
  calendar _ := rfl
  accepted := by simp
  skipped := rfl

/-- Trips of a registered service stay the same when others are registered. -/
theorem taken_of_longer {c c' : ServiceCalendar} (h : r.serviceId ∈ c.serviceIds)
    (hlonger : c.serviceIds <+: c'.serviceIds) : b.taken c' r = b.taken c r := by
  simp only [taken, tripsOf, template?, detailsOf, ServiceCalendar.code_of_longer h hlonger]

theorem TakesIn.append (h : a.TakesIn b rs a') (h' : a'.TakesIn b rs' a'') :
    a.TakesIn b (rs ++ rs') a'' where
  services := h.services.trans h'.services
  registered := by
    intro r hr hadmits
    rcases List.mem_append.mp hr with hr | hr
    · exact h'.services.subset (h.registered r hr hadmits)
    · exact h'.registered r hr hadmits
  calendar hall := by
    have hfirst := h.calendar fun r hr => hall r (List.mem_append_left _ hr)
    rw [← hfirst]
    exact h'.calendar fun r hr => hfirst ▸ hall r (List.mem_append_right _ hr)
  accepted := by
    have hsame : (rs.filter fun r => decide (b.Admits r)).map (b.taken a'.calendar)
        = (rs.filter fun r => decide (b.Admits r)).map (b.taken a''.calendar) := by
      refine List.map_congr_left fun r hr => ?_
      obtain ⟨hr, hadmits⟩ := List.mem_filter.mp hr
      exact (taken_of_longer (h.registered r hr (of_decide_eq_true hadmits)) h'.services).symm
    rw [h'.accepted, h.accepted, hsame, List.filter_append, List.map_append, List.append_assoc]
  skipped := by
    rw [h'.skipped, h.skipped, List.countP_append, Nat.add_assoc]

/-- A record that is left out may still have registered its service. -/
theorem TakesIn.of_skip {pools : Pools} {notice : Notice} (h : ¬ b.Admits r)
    {c : ServiceCalendar} (hc : c = a.calendar ∨ c = (a.calendar.register r.serviceId).2) :
    a.TakesIn b [r] ({ a with calendar := c, pools := pools }.skip notice) where
  services := by
    rcases hc with rfl | rfl
    · exact List.prefix_refl _
    · exact ServiceCalendar.longer_register
  registered := by simp [h]
  calendar hall := by
    rcases hc with rfl | rfl
    · rfl
    · exact ServiceCalendar.register_of_mem (hall r (List.mem_singleton_self r))
  accepted := by simp [skip, h]
  skipped := by simp [skip, h]

theorem TakesIn.of_push (a : Assembly) (pools : Pools) (h : b.Admits r) :
    a.TakesIn b [r] { a with
      calendar := (a.calendar.register r.serviceId).2
      pools := pools
      accepted := a.accepted.push (b.taken a.calendar r) } where
  services := ServiceCalendar.longer_register
  registered := by simpa [h] using ServiceCalendar.mem_register
  calendar hall := ServiceCalendar.register_of_mem (hall r (List.mem_singleton_self r))
  accepted := by
    have hsame : b.taken (a.calendar.register r.serviceId).2 r = b.taken a.calendar r := by
      simp only [taken, tripsOf, template?, detailsOf, ServiceCalendar.code_register]
    simp [h, hsame]
  skipped := by simp [h]

/-- No record fails by itself. -/
theorem takesIn_add (hb : b.Collects es) (a : Assembly) (r : TripRecord) :
    ∃ a', add b a r = .ok a' ∧ a.TakesIn b [r] a' := by
  unfold add
  by_cases hcalls : r.stopTimes.length < 2
  · rw [if_pos hcalls]
    have hskipped : ¬ b.Admits r := fun h => Nat.not_lt.mpr h.calls hcalls
    exact ⟨_, rfl, .of_skip hskipped (.inl rfl)⟩
  · rw [if_neg hcalls]
    cases hstops : b.stopsOf (inOrder r.stopTimes) with
    | error stopId =>
        simp only [hstops]
        refine ⟨_, rfl, .of_skip (fun h => ?_) (.inl rfl)⟩
        have hknown := stopsOf_of_known fun s hs => h.known s (mem_inOrder.mp hs)
        rw [hknown] at hstops
        cases hstops
    | ok stops =>
        obtain ⟨trip, htrip⟩ := template?_isSome a.calendar (Nat.not_lt.mp hcalls)
        have hadmits := admits_iff_decrease? (Nat.not_lt.mp hcalls) hstops htrip
        have hok := template?_eq_some.mp htrip
        simp only [detailsOf] at hok
        simp only [hstops, hok]
        cases hdecrease : trip.decrease? with
        | some decrease =>
            rw [hdecrease] at hadmits
            exact ⟨_, rfl, .of_skip (fun h => Option.some_ne_none _ (hadmits.mp h)) (.inr rfl)⟩
        | none =>
            have hknown := hstops.symm.trans <|
              stopsOf_of_known fun s hs => (hadmits.mpr hdecrease).known s (mem_inOrder.mp hs)
            obtain rfl := Except.ok.inj hknown
            have htaken : b.taken a.calendar r
                = ⟨b.keyOf r, runsOf (b.entriesFor r.tripId) trip⟩ := by
              simp only [taken, tripsOf, htrip, Option.toList_some, List.flatMap_singleton]
            have hpush := TakesIn.of_push a (trip.shareColumns a.pools)
              (hadmits.mpr hdecrease)
            rw [htaken, ← hb.runsOf] at hpush
            exact ⟨_, rfl, hpush⟩

theorem takesIn_addAll (hb : b.Collects es) (a : Assembly) {seen : List String}
    (hnodup : (rs.map TripRecord.tripId).Nodup) (hseen : ∀ r ∈ rs, r.tripId ∉ seen) :
    ∃ a', addAll b seen a rs = (a', none) ∧ a.TakesIn b rs a' := by
  induction rs generalizing a seen with
  | nil => exact ⟨a, rfl, .nil⟩
  | cons r rest ih =>
      rw [List.map_cons, List.nodup_cons] at hnodup
      obtain ⟨hr, hrest⟩ := List.forall_mem_cons.mp hseen
      obtain ⟨a₁, hadd, htakes⟩ := takesIn_add hb a r
      have hfresh : ∀ r' ∈ rest, r'.tripId ∉ r.tripId :: seen := by
        intro r' hr' hmem
        rcases List.mem_cons.mp hmem with hid | hmem
        · exact hnodup.1 (hid ▸ List.mem_map_of_mem hr')
        · exact hrest r' hr' hmem
      obtain ⟨a', haddAll, htakes'⟩ := ih a₁ hnodup.2 hfresh
      refine ⟨a', ?_, htakes.append htakes'⟩
      rw [addAll, if_neg (by simpa using hr), hadd]
      exact haddAll

theorem nodup_of_addAll {seen : List String} (h : addAll b seen a rs = (a', none)) :
    (rs.map TripRecord.tripId).Nodup ∧ ∀ r ∈ rs, r.tripId ∉ seen := by
  induction rs generalizing seen a with
  | nil => simp
  | cons r rest ih =>
      unfold addAll at h
      split at h
      case isTrue => simp at h
      case isFalse hr =>
        cases hadd : add b a r with
        | error e => simp [hadd] at h
        | ok a₁ =>
            simp only [hadd] at h
            obtain ⟨hnodup, hseen⟩ := ih h
            simp only [List.mem_cons, not_or] at hseen
            refine ⟨List.nodup_cons.mpr ⟨?_, hnodup⟩, ?_⟩
            · intro hmem
              obtain ⟨r', hr', hid⟩ := List.mem_map.mp hmem
              exact (hseen r' hr').1 hid
            · exact List.forall_mem_cons.mpr ⟨by simpa using hr, fun r' hr' => (hseen r' hr').2⟩

end Assembly
end Judging

section Building

variable {b : Builder} {es : List Entry} {t : Timetable}

/-- The timetable of what has been taken in. -/
def timetableOf (b : Builder) (c : ServiceCalendar) (accepted : List Accepted) : Timetable where
  stops := b.stops
  patterns := (patternsOf accepted).toArray
  stopPatterns := stopPatternsOf (patternsOf accepted) b.stops.size
  transfers := Walks.outgoing (Walks.shortest b.walks.toList) b.stops.size
  incoming := Walks.incoming (Walks.shortest b.walks.toList) b.stops.size
  calendar := c
  zone := b.zone
  tripIndex := tripIndexOf (patternsOf accepted)

/-- What is taken in from all the records of a builder. -/
def takenIn (b : Builder) (c : ServiceCalendar) : List Accepted :=
  (b.trips.toList.filter fun r => decide (b.Admits r)).map (b.taken c)

theorem build_of_addAll {a : Assembly}
    (h : Assembly.addAll b [] { calendar := b.calendar } b.trips.toList = (a, none)) :
    b.build.2 = .ok (b.timetableOf a.calendar a.accepted.toList) := by
  simp only [build, h, timetableOf]

/-- A timetable can be made exactly if no two records have one id. -/
theorem build_succeeds_iff (hb : b.Collects es) :
    (∃ t, b.build.2 = .ok t) ↔ (b.trips.toList.map TripRecord.tripId).Nodup := by
  constructor
  · rintro ⟨t, ht⟩
    obtain ⟨a, ha, -⟩ := build_eq_ok ht
    exact (Assembly.nodup_of_addAll ha).1
  · intro hnodup
    have hseen : ∀ r ∈ b.trips.toList, r.tripId ∉ [] := fun _ _ => List.not_mem_nil
    obtain ⟨a, ha, -⟩ := Assembly.takesIn_addAll hb { calendar := b.calendar } hnodup hseen
    exact ⟨_, build_of_addAll ha⟩

/-- What has been taken in when a timetable was made. -/
theorem takesIn_build (hb : b.Collects es) (ht : b.build.2 = .ok t) :
    ∃ a : Assembly, Assembly.addAll b [] { calendar := b.calendar } b.trips.toList = (a, none)
      ∧ Assembly.TakesIn b { calendar := b.calendar } b.trips.toList a
      ∧ a.accepted.toList = b.takenIn a.calendar
      ∧ t = b.timetableOf a.calendar (b.takenIn a.calendar) := by
  obtain ⟨a, ha, -⟩ := build_eq_ok ht
  obtain ⟨hnodup, hseen⟩ := Assembly.nodup_of_addAll ha
  obtain ⟨a', ha', htakes⟩ := Assembly.takesIn_addAll hb { calendar := b.calendar } hnodup hseen
  obtain rfl : a' = a := congrArg Prod.fst (ha'.symm.trans ha)
  have haccepted : a'.accepted.toList = b.takenIn a'.calendar := by
    simpa [takenIn] using htakes.accepted
  refine ⟨a', ha, htakes, haccepted, ?_⟩
  rw [← haccepted]
  exact Except.ok.inj (ht.symm.trans (build_of_addAll ha))

theorem build_eq_timetableOf (hb : b.Collects es) (ht : b.build.2 = .ok t) :
    t = b.timetableOf t.calendar (b.takenIn t.calendar) := by
  obtain ⟨a, -, -, -, heq⟩ := takesIn_build hb ht
  have hcalendar : t.calendar = a.calendar := congrArg Timetable.calendar heq
  rwa [hcalendar]

end Building
end Builder
end JourneyPlanner
