import JourneyPlanner.Proofs.Admission
import JourneyPlanner.Proofs.Listing
import Mathlib.Data.List.Lex
import Mathlib.Data.List.Perm.Basic
import Mathlib.Data.Prod.Lex
import Mathlib.Data.String.Basic
import Mathlib.Order.WithBot

/-!
How a timetable shares out trips among patterns. Every trip stands in the pattern of its own
route and stops, no two patterns have the same, and a pattern holds nothing else.
-/

namespace JourneyPlanner

section Lists

variable {α κ : Type}

theorem nodup_eraseDups [DecidableEq α] (xs : List α) : xs.eraseDups.Nodup := by
  match xs with
  | [] => simp
  | x :: xs =>
      rw [List.eraseDups_cons]
      refine List.nodup_cons.mpr ⟨?_, nodup_eraseDups _⟩
      simp [List.mem_eraseDups]
termination_by xs.length
decreasing_by exact Nat.lt_succ_of_le (List.length_filter_le _ _)

/-- Elements that are sorted by what they belong to are all there, each of them once. -/
theorem flatMap_fibers_perm [DecidableEq κ] {f : α → κ} {keys : List κ} (hnodup : keys.Nodup)
    {xs : List α} (h : ∀ x ∈ xs, f x ∈ keys) :
    (keys.flatMap fun k => xs.filter fun x => decide (f x = k)).Perm xs := by
  induction keys generalizing xs with
  | nil =>
      obtain rfl : xs = [] := List.eq_nil_iff_forall_not_mem.mpr fun x hx => by simpa using h x hx
      exact .nil
  | cons k keys ih =>
      obtain ⟨hk, hnodup⟩ := List.nodup_cons.mp hnodup
      have hrest : ∀ k' ∈ keys, (xs.filter fun x => decide (f x = k'))
          = (xs.filter fun x => !decide (f x = k)).filter fun x => decide (f x = k') := by
        intro k' hk'
        rw [List.filter_filter]
        refine List.filter_congr fun x _ => ?_
        by_cases hx : f x = k'
        · have hne : k' ≠ k := fun heq => hk (heq ▸ hk')
          simp [hx, hne]
        · simp [hx]
      have hkeys : ∀ x ∈ xs.filter fun x => !decide (f x = k), f x ∈ keys := by
        intro x hx
        obtain ⟨hx, hne⟩ := List.mem_filter.mp hx
        exact (List.mem_cons.mp (h x hx)).resolve_left (by simpa using hne)
      rw [List.flatMap_cons, List.flatMap_congr hrest]
      exact ((ih hnodup hkeys).append_left _).trans (List.filter_append_perm _ xs)

end Lists

/-- Numbers are known by their digits. -/
theorem eq_of_toString {m n : Nat} (h : toString m = toString n) : m = n := by
  have hread : ∀ k : Nat, Nat.ofDigitChars 10 (toString k).toList 0 = k := by
    intro k
    rw [Nat.toString_eq_repr, Nat.repr_eq_ofList_toDigits, String.toList_ofList]
    exact Nat.ofDigitChars_toDigits (by decide) (by decide)
  rw [← hread m, h, hread]

namespace Ordered

section Keys

variable {α κ : Type} [LinearOrder κ] {before : α → α → Bool} {key : α → κ}
  (hkey : ∀ a b, before a b = true ↔ key a < key b)

include hkey

theorem asymm_of_key (a b : α) (h : before a b = true) : before b a = false := by
  rw [← Bool.not_eq_true, hkey]
  exact lt_asymm ((hkey a b).mp h)

theorem trans_of_key (a b c : α) (hba : before b a = false) (hcb : before c b = false) :
    before c a = false := by
  rw [← Bool.not_eq_true, hkey, not_lt] at hba hcb ⊢
  exact hba.trans hcb

/-- What is sorted by a key ascends by it. -/
theorem sort_ascends (xs : List α) : (sort before xs).Pairwise fun a b => key a ≤ key b :=
  (inOrder_sort (asymm_of_key hkey) (trans_of_key hkey) xs).imp fun {a b} h => by
    rwa [← Bool.not_eq_true, hkey, not_lt] at h

/-- The order in which elements are given makes no difference if no two have one key. -/
theorem sort_eq_of_perm {xs ys : List α} (hperm : xs.Perm ys)
    (hinj : ∀ a ∈ xs, ∀ b ∈ xs, key a = key b → a = b) : sort before xs = sort before ys := by
  have hsorted : (sort before xs).Perm (sort before ys) :=
    ((sort_perm before xs).trans hperm).trans (sort_perm before ys).symm
  refine hsorted.eq_of_pairwise ?_ (sort_ascends hkey xs) (sort_ascends hkey ys)
  intro a b ha hb hab hba
  exact hinj a ((mem_sort ..).mp ha) b ((mem_sort ..).mp (hsorted.mem_iff.mpr hb))
    (hab.antisymm hba)

/-- Of elements with equal keys the first one given comes first. -/
theorem sort_eq_mergeSort (xs : List α) : sort before xs = xs.mergeSort fun a b => !before b a := by
  have htrans : ∀ a b c, (!before b a) = true → (!before c b) = true → (!before c a) = true := by
    simp only [Bool.not_eq_true']
    exact trans_of_key hkey
  have htotal : ∀ a b, ((!before b a) || !before a b) = true := by
    intro a b
    cases h : before a b with
    | false => simp
    | true => simp [asymm_of_key hkey a b h]
  have hirrefl : ∀ a, before a a = false := fun a => by
    rw [← Bool.not_eq_true, hkey]
    exact lt_irrefl _
  refine eq_of_inOrder ((sort_perm before xs).trans (List.mergeSort_perm xs _).symm)
    (inOrder_sort (asymm_of_key hkey) (trans_of_key hkey) xs) ?_ hirrefl fun a => ?_
  · exact (List.pairwise_mergeSort htrans htotal xs).imp fun h => by simpa using h
  · have htied : ∀ b c, alike before a b = true → alike before a c = true → before b c = false := by
      intro b c hb hc
      simp only [alike, Bool.and_eq_true, Bool.not_eq_true'] at hb hc
      exact trans_of_key hkey c a b hc.1 hb.2
    rw [filter_sort_of_tied (asymm_of_key hkey) (trans_of_key hkey) htied]
    have hpairwise : (xs.filter (alike before a)).Pairwise fun b c => (!before c b) = true := by
      refine List.pairwise_of_forall_mem_list fun b hb c hc => ?_
      rw [htied c b (List.mem_filter.mp hc).2 (List.mem_filter.mp hb).2, Bool.not_false]
    have hsublist := (List.sublist_mergeSort htrans htotal hpairwise List.filter_sublist).filter
      (alike before a)
    simp only [List.filter_filter, Bool.and_self] at hsublist
    exact hsublist.eq_of_length ((List.mergeSort_perm xs _).filter _).length_eq.symm

end Keys

end Ordered

theorem tripBefore_iff (a b : Trip) : Builder.tripBefore a b = true ↔
    toLex (a.firstDeparture, a.details.tripId) < toLex (b.firstDeparture, b.details.tripId) := by
  simp only [Builder.tripBefore, Bool.or_eq_true, Bool.and_eq_true, decide_eq_true_eq, beq_iff_eq,
    Prod.Lex.toLex_lt_toLex]

/-- No sequence number is less than any. -/
theorem sequenceBefore_iff (a b : StopTimeRecord) : Builder.sequenceBefore a b = true ↔
    (show WithBot Nat from a.stopSequence) < (show WithBot Nat from b.stopSequence) := by
  unfold Builder.sequenceBefore
  cases a.stopSequence with
  | none =>
      cases b.stopSequence with
      | none => exact iff_of_false (by simp) (lt_irrefl _)
      | some n => exact iff_of_true rfl (WithBot.bot_lt_coe n)
  | some m =>
      cases b.stopSequence with
      | none => exact iff_of_false (by simp) (not_lt_bot)
      | some n => exact decide_eq_true_iff.trans WithBot.coe_lt_coe.symm

theorem PatternKey.before_iff (a b : PatternKey) :
    a.before b = true ↔ toLex (a.routeId, a.stops) < toLex (b.routeId, b.stops) := by
  simp only [PatternKey.before, Bool.or_eq_true, Bool.and_eq_true, decide_eq_true_eq, beq_iff_eq,
    Prod.Lex.toLex_lt_toLex]

def Pattern.key (p : Pattern) : PatternKey :=
  ⟨p.routeId, p.stops⟩

namespace Builder

/-- Sequence numbers decide, and the order in which calls were given decides among equals. -/
theorem inOrder_eq_mergeSort (stopTimes : List StopTimeRecord) :
    inOrder stopTimes = stopTimes.mergeSort fun s s' => !sequenceBefore s' s :=
  Ordered.sort_eq_mergeSort sequenceBefore_iff stopTimes

section Patterns

variable {accepted : List Accepted}

theorem mem_keysOf {key : PatternKey} : key ∈ keysOf accepted ↔ ∃ a ∈ accepted, a.key = key := by
  rw [keysOf, Ordered.mem_sort, List.mem_eraseDups, List.mem_map]

theorem nodup_keysOf : (keysOf accepted).Nodup :=
  (Ordered.sort_perm _ _).nodup_iff.mpr (nodup_eraseDups _)

theorem map_key_patternsOf : (patternsOf accepted).map Pattern.key = keysOf accepted := by
  rw [patternsOf, List.map_map]
  exact List.zipIdx_map_fst 0 _

theorem getElem?_patternsOf (accepted : List Accepted) (i : Nat) : (patternsOf accepted)[i]? =
    (keysOf accepted)[i]?.map (patternAt accepted (keysOf accepted) i) := by
  simp only [patternsOf, List.getElem?_map, List.getElem?_zipIdx, Option.map_map, Nat.zero_add]
  rfl

theorem trips_patternAt (keys : List PatternKey) (i : Nat) (key : PatternKey) :
    (patternAt accepted keys i key).trips.Perm
      ((accepted.filter fun a => decide (a.key = key)).flatMap (·.trips)) :=
  Ordered.sort_perm _ _

theorem trips_of_mem_patternsOf {p : Pattern} (hp : p ∈ patternsOf accepted) :
    p.trips.Perm ((accepted.filter fun a => decide (a.key = p.key)).flatMap (·.trips))
      ∧ p.trips.Pairwise fun s t => s.firstDeparture ≤ t.firstDeparture := by
  obtain ⟨i, hi⟩ := List.getElem?_of_mem hp
  rw [getElem?_patternsOf, Option.map_eq_some_iff] at hi
  obtain ⟨key, -, rfl⟩ := hi
  refine ⟨trips_patternAt _ i key, (Ordered.sort_ascends tripBefore_iff _).imp fun h => ?_⟩
  exact Prod.Lex.monotone_fst _ _ h

/-- No trip is lost, and none comes twice. -/
theorem trips_patternsOf :
    ((patternsOf accepted).flatMap Pattern.trips).Perm (accepted.flatMap (·.trips)) := by
  have hpatterns : ((patternsOf accepted).flatMap Pattern.trips).Perm
      ((keysOf accepted).zipIdx.flatMap fun x =>
        (accepted.filter fun a => decide (a.key = x.1)).flatMap (·.trips)) := by
    rw [patternsOf, List.flatMap_map]
    exact List.Perm.flatMap (.refl _) fun x _ => trips_patternAt _ x.2 x.1
  have hkeys : ((keysOf accepted).zipIdx.flatMap fun x =>
        (accepted.filter fun a => decide (a.key = x.1)).flatMap (·.trips))
      = ((keysOf accepted).flatMap fun key =>
        accepted.filter fun a => decide (a.key = key)).flatMap (·.trips) := by
    rw [List.flatMap_assoc]
    conv_rhs => rw [← List.zipIdx_map_fst 0 (keysOf accepted), List.flatMap_map]
  rw [hkeys] at hpatterns
  refine hpatterns.trans (List.Perm.flatMap_right _ (flatMap_fibers_perm nodup_keysOf ?_))
  exact fun a ha => mem_keysOf.mpr ⟨a, ha, rfl⟩

theorem countP_take_lt {P : PatternKey → Bool} {keys : List PatternKey} {i j : Nat} (hij : i < j)
    {key : PatternKey} (hkey : keys[i]? = some key) (hP : P key = true) :
    (keys.take i).countP P < (keys.take j).countP P := by
  have hsucc : (keys.take (i + 1)).countP P = (keys.take i).countP P + 1 := by
    rw [List.take_add_one, hkey, List.countP_append]
    simp [hP]
  have hle : (keys.take (i + 1)).countP P ≤ (keys.take j).countP P :=
    (List.take_sublist_take_left hij).countP_le
  omega

/-- Codes are counted route by route. -/
theorem codes_patternsOf :
    (patternsOf accepted).Pairwise fun p q => p.routeId = q.routeId → p.code ≠ q.code := by
  refine List.pairwise_iff_getElem.mpr fun i j hi hj hij hroute hcode => ?_
  have hp := getElem?_patternsOf accepted i
  have hq := getElem?_patternsOf accepted j
  rw [List.getElem?_eq_getElem hi, eq_comm, Option.map_eq_some_iff] at hp
  rw [List.getElem?_eq_getElem hj, eq_comm, Option.map_eq_some_iff] at hq
  obtain ⟨key, hkey, hp⟩ := hp
  obtain ⟨key', hkey', hq⟩ := hq
  rw [← hp, ← hq] at hroute hcode
  simp only [patternAt] at hroute hcode
  rw [← hroute, String.append_right_inj] at hcode
  have hlt := countP_take_lt (P := fun k => k.routeId == key.routeId) hij hkey (beq_self_eq_true _)
  exact Nat.ne_of_lt hlt (eq_of_toString hcode)

theorem pairwise_stopPatternsOf (patterns : List Pattern) (numStops stop : Nat) :
    ((stopPatternsOf patterns numStops).row stop).Pairwise (· < ·) := by
  rw [stopPatternsOf, Rows.row_ofLists, List.getElem?_map]
  by_cases hlt : stop < numStops
  · simp only [List.getElem?_range hlt, Option.map_some, Option.getD_some]
    refine List.Pairwise.sublist (List.filter_sublist.map _) ?_
    rw [List.zipIdx_map_snd]
    exact List.pairwise_lt_range' ..
  · simp [hlt]

end Patterns

/-- A call ends before it starts, or the next one starts before it has ended. -/
def Decreases (stopTimes : List StopTimeRecord) : Prop :=
  (∃ s ∈ stopTimes, s.times.2 < s.times.1)
    ∨ ∃ (i : Nat) (s s' : StopTimeRecord), stopTimes[i]? = some s ∧ stopTimes[i + 1]? = some s'
      ∧ s'.times.1 < s.times.2

theorem not_decreases_iff {stopTimes : List StopTimeRecord} : ¬ Decreases stopTimes ↔
    (∀ s ∈ stopTimes, s.times.1 ≤ s.times.2)
      ∧ stopTimes.IsChain fun s s' => s.times.2 ≤ s'.times.1 := by
  rw [Decreases, not_or, List.isChain_iff_getElem]
  refine and_congr (by simp only [not_exists, not_and, Int.not_lt]) ⟨?_, ?_⟩
  · intro h i hi
    refine Int.not_lt.mp fun hlt => h ⟨i, stopTimes[i], stopTimes[i + 1], ?_, ?_, hlt⟩
    · exact List.getElem?_eq_getElem (Nat.lt_of_succ_lt hi)
    · exact List.getElem?_eq_getElem hi
  · rintro h ⟨i, s, s', hs, hs', hlt⟩
    obtain ⟨hi, rfl⟩ := List.getElem?_eq_some_iff.mp hs'
    obtain ⟨hi', rfl⟩ := List.getElem?_eq_some_iff.mp hs
    exact Int.not_lt.mpr (h i hi) hlt

theorem not_admits_iff {b : Builder} {r : TripRecord} : ¬ b.Admits r ↔
    r.stopTimes.length < 2 ∨ (∃ s ∈ r.stopTimes, b.findStop? s.stopId = none)
      ∨ Decreases (inOrder r.stopTimes) := by
  rw [not_iff_comm, not_or, not_or, not_decreases_iff, admits_iff, Nat.not_lt]
  simp only [mem_inOrder, not_exists, not_and, Option.isSome_iff_ne_none, ne_eq]

end Builder

namespace Timetable

open Builder

/-- The patterns of a timetable share out the trips of records by route and stops. -/
structure Partitions (t : Timetable) (b : Builder) (records : List TripRecord)
    (trips : TripRecord → List Trip) : Prop where
  /-- No trip is lost, and none comes twice. -/
  all : (t.patterns.toList.flatMap Pattern.trips).Perm (records.flatMap trips)
  own : ∀ p ∈ t.patterns.toList,
    p.trips.Perm ((records.filter fun r => decide (b.keyOf r = p.key)).flatMap trips)
  keys : ∀ key, key ∈ t.patterns.toList.map Pattern.key ↔ ∃ r ∈ records, b.keyOf r = key
  apart : (t.patterns.toList.map Pattern.key).Nodup
  codes : t.patterns.toList.Pairwise fun p q => p.routeId = q.routeId → p.code ≠ q.code
  departures : ∀ p ∈ t.patterns.toList,
    p.trips.Pairwise fun s s' => s.firstDeparture ≤ s'.firstDeparture
  ascending : ∀ stop, (t.patternsAt stop).Pairwise (· < ·)
  indexed : ∀ stop i, i ∈ t.patternsAt stop ↔ ∃ p, t.patterns[i]? = some p ∧ stop ∈ p.stops

end Timetable

namespace Builder

variable {b : Builder} {es : List Entry} {t : Timetable}

theorem flatMap_takenIn (c : ServiceCalendar) (key : PatternKey) :
    ((b.takenIn c).filter fun a => decide (a.key = key)).flatMap (·.trips)
      = ((b.trips.toList.filter fun r => decide (b.Admits r)).filter fun r =>
        decide (b.keyOf r = key)).flatMap fun r => tripsOf c (b.entriesFor r.tripId) r := by
  rw [takenIn, List.filter_map, List.flatMap_map]
  rfl

theorem partitions_build (hb : b.Collects es) (hassembled : b.Assembled) (ht : b.build.2 = .ok t) :
    t.Partitions b (b.trips.toList.filter fun r => decide (b.Admits r))
      fun r => tripsOf t.calendar (b.entriesFor r.tripId) r := by
  have heq := build_eq_timetableOf hb ht
  have hpatterns : t.patterns.toList = patternsOf (b.takenIn t.calendar) :=
    (congrArg (fun t => t.patterns.toList) heq).trans List.toList_toArray
  constructor
  case all =>
    rw [hpatterns]
    refine trips_patternsOf.trans ?_
    rw [takenIn, List.flatMap_map]
    exact .refl _
  case own =>
    intro p hp
    rw [hpatterns] at hp
    rw [← flatMap_takenIn]
    exact (trips_of_mem_patternsOf hp).1
  case keys =>
    intro key
    simp only [hpatterns, map_key_patternsOf, mem_keysOf, takenIn, List.mem_map,
      exists_exists_and_eq_and]
    rfl
  case apart =>
    rw [hpatterns, map_key_patternsOf]
    exact nodup_keysOf
  case codes =>
    rw [hpatterns]
    exact codes_patternsOf
  case departures =>
    intro p hp
    rw [hpatterns] at hp
    exact (trips_of_mem_patternsOf hp).2
  case ascending =>
    intro stop
    rw [heq]
    exact pairwise_stopPatternsOf _ _ stop
  case indexed =>
    intro stop i
    have hsound := sound_build hassembled ht
    rw [hsound.indexed]
    refine ⟨fun h => h.2, ?_⟩
    rintro ⟨p, hp, hstop⟩
    exact ⟨hsound.stops hp stop hstop, p, hp, hstop⟩

/-- How many records were left out is noticed. -/
theorem skipped_build (hb : b.Collects es) (ht : b.build.2 = .ok t) :
    Notice.timetableBuilt t.numStops t.patterns.size (Ordered.numDistinct (t.tripIndex.map (·.1)))
      (b.trips.toList.countP fun r => !decide (b.Admits r)) t.calendar.numServices ∈ b.build.1 := by
  obtain ⟨a, ha, htakes, haccepted, rfl⟩ := takesIn_build hb ht
  have hskipped : a.skipped = b.trips.toList.countP fun r => !decide (b.Admits r) := by
    simpa using htakes.skipped
  simp only [build, ha, ← hskipped, timetableOf, ← haccepted]
  exact List.mem_append_right _ (List.mem_cons_of_mem _ (List.mem_cons_self ..))

/-- The service of a trip is the one its record names. -/
theorem serviceId?_build (hb : b.Collects es) (ht : b.build.2 = .ok t) {r : TripRecord}
    (hr : r ∈ b.trips.toList) (hadmits : b.Admits r) :
    t.calendar.serviceId? (detailsOf t.calendar r).serviceCode = some r.serviceId := by
  obtain ⟨a, -, htakes, -, rfl⟩ := takesIn_build hb ht
  exact ServiceCalendar.serviceId?_register (htakes.registered r hr hadmits)

theorem runs_of_admits {r : TripRecord} (h : b.Admits r) (c : ServiceCalendar)
    (entries : List FrequencyRecord) : ∃ trip,
      Trip.ofStopTimes (detailsOf c r) (inOrder r.stopTimes) = .ok trip
        ∧ tripsOf c entries r = runsOf entries trip := by
  obtain ⟨trip, htrip⟩ := template?_isSome c h.calls
  refine ⟨trip, template?_eq_some.mp htrip, ?_⟩
  simp only [tripsOf, htrip, Option.toList_some, List.flatMap_singleton]

theorem partitions_given (zone : Zone) (es : List Entry) (ht : (given zone es).build.2 = .ok t) :
    t.Partitions (given zone es)
      ((es.filterMap Entry.trip?).filter fun r => decide ((given zone es).Admits r))
      fun r => tripsOf t.calendar
        ((es.filterMap Entry.frequency?).filter (·.tripId == r.tripId)) r := by
  obtain ⟨es', hok, htrips, hfrequencies⟩ := exists_ofEntries zone es
  have hb := collects_ofEntries hok
  have hpartitions := partitions_build hb (assembled_ofEntries hok) ht
  simpa only [hb.trips, htrips, hb.entriesFor, hfrequencies] using hpartitions

theorem ids_nodup_given (zone : Zone) (es : List Entry) (ht : (given zone es).build.2 = .ok t) :
    ((es.filterMap Entry.trip?).map TripRecord.tripId).Nodup := by
  obtain ⟨es', hok, htrips, -⟩ := exists_ofEntries zone es
  have hb := collects_ofEntries hok
  rw [← htrips, ← hb.trips]
  exact (build_succeeds_iff hb).mp ⟨t, ht⟩

end Builder

namespace MixedRecords

open Builder

def day : Date := ⟨19860, by decide⟩

def trip (tripId : String) (stops : List String) (start : Time) : TripRecord where
  tripId := tripId
  routeId := "L"
  serviceId := "W"
  stopTimes := stops.zipIdx.map fun (stop, i) =>
    { stopId := stop, arrival := start + 600 * i, departure := start + 600 * i }

/-- A trip and a template with the same stops, a loop, and a trip that calls only once. -/
def entries : List Entry :=
  [.stop "A" none, .stop "B" none, .serviceDates "W" [day], .trip (trip "late" ["A", "B"] 30000),
    .trip (trip "shuttle" ["A", "B"] 0), .trip (trip "loop" ["A", "B", "A"] 20000),
    .trip (trip "short" ["A"] 10000), .frequency ⟨"shuttle", 21600, 23400, 900, true⟩]

def timetable : Timetable :=
  (given .utc entries).timetable (by decide +kernel)

theorem build_entries : (given .utc entries).build.2 = .ok timetable :=
  build_eq_timetable _ _

end MixedRecords

end JourneyPlanner
