import JourneyPlanner.Proofs.Travelling
import JourneyPlanner.Proofs.Noon

/-!
Requests for absolute instants. Every instant has a local date and a place in the service of
that date. But where clocks are set back before noon, service starts after midnight, and what
lies between the two has a negative time, which requests may not have.
-/

namespace JourneyPlanner

namespace ServiceDay

variable {zone : Zone} {begin instant : Int} {date : Date} {nanos : Nat}

theorem day_of_localDate? (h : localDate? instant zone = some date) :
    date.day = (instant + zone.offsetAt instant) / 86400 := by
  unfold localDate? Date.ofDay? at h
  split at h
  · exact congrArg Date.day (Option.some.inj h).symm
  · exact absurd h (by simp)

/-- Service starts when local clocks would show midnight if they were not changed before
noon, and they are changed by an hour at most. -/
structure Starts (begin instant : Int) (date : Date) (zone : Zone) : Prop where
  start : ServiceDay.start date zone = .ok begin
  midnight : begin + zone.offsetAt (begin + 43200) = date.day * 86400
  back : zone.offsetAt instant ≤ zone.offsetAt (begin + 43200) + 3600
  ahead : zone.offsetAt (begin + 43200) ≤ zone.offsetAt instant + 3600

theorem exists_starts (hzone : zone ∈ Zone.all) (h : localDate? instant zone = some date) :
    ∃ begin, Starts begin instant date zone := by
  have hday := day_of_localDate? h
  obtain ⟨os, hkeeps⟩ := Zone.keepsTo_of_mem hzone instant
  rw [← hday] at hkeeps
  obtain ⟨o, ho, hnoon⟩ := hkeeps.noon_unique
  have hshown := hkeeps.shown instant hday.symm
  have hmem : date.day * 86400 + 43200 - o ∈ zone.instantsAt (date.day * 86400 + 43200) := by
    rw [hnoon]
    exact List.mem_singleton_self _
  have hoffset : zone.offsetAt (date.day * 86400 + 43200 - o) = o := by
    have hclock := (List.mem_filter.mp hmem).2
    rw [beq_iff_eq] at hclock
    grind
  have hbegin : date.day * 86400 + 43200 - o - 43200 + 43200 = date.day * 86400 + 43200 - o := by
    omega
  refine ⟨date.day * 86400 + 43200 - o - 43200, ?_, ?_, ?_, ?_⟩
  · rw [ServiceDay.start, hnoon]
  · rw [hbegin, hoffset]
    omega
  · rw [hbegin, hoffset]
    exact (hkeeps.quiet.2.2 _ hshown _ ho).1
  · rw [hbegin, hoffset]
    exact (hkeeps.quiet.2.2 _ ho _ hshown).1

theorem Starts.bounds (hs : Starts begin instant date zone)
    (h : localDate? instant zone = some date) :
    begin - 3600 ≤ instant ∧ instant < begin + 90000 := by
  have hday := day_of_localDate? h
  have hmidnight := hs.midnight
  have hback := hs.back
  have hahead := hs.ahead
  omega

/-- Before the start of service local clocks show the hour that is repeated later on. -/
theorem Starts.repeated (hs : Starts begin instant date zone)
    (h : localDate? instant zone = some date) (hearly : instant < begin) :
    zone.offsetAt (begin + 43200) < zone.offsetAt instant
      ∧ (instant + zone.offsetAt instant) % 86400 < 3600 := by
  have hday := day_of_localDate? h
  have hmidnight := hs.midnight
  have hback := hs.back
  omega

/-- A part of a second before the start counts as none. -/
theorem secondsSince_eq (hnanos : nanos < 1000000000) (hlow : begin - 3600 ≤ instant)
    (hhigh : instant < begin + 90000) : begin + secondsSince begin instant nanos
      = instant + if instant < begin ∧ nanos ≠ 0 then 1 else 0 := by
  unfold secondsSince
  have htruncated : Int.tdiv ((instant - begin) * 1000000000 + nanos) 1000000000
      = instant - begin + if instant < begin ∧ nanos ≠ 0 then 1 else 0 := by
    rw [Int.tdiv_eq_ediv, show Int.sign 1000000000 = 1 from rfl]
    split_ifs <;> omega
  rw [htruncated, Time.wrap_of_fits]
  · omega
  · simp only [Time.Fits, leastTime, greatestTime]
    split_ifs <;> omega

end ServiceDay

namespace Request

variable {t : Timetable} {instant : Int} {date : Date} {nanos : Nat}

theorem unknownStop?_ne_time (stop : Nat) (time : Time) :
    unknownStop? t stop ≠ some (.time time) := by
  unfold unknownStop?
  split <;> simp

theorem durationFault?_ne_time (duration time : Time) :
    durationFault? duration ≠ some (.time time) := by
  unfold durationFault?
  split <;> simp

theorem streetFault?_ne_time (r : Request) (time : Time) :
    r.streetFault? t ≠ some (.time time) := by
  unfold streetFault?
  split
  · simp
  split
  · simp
  intro hleg
  obtain ⟨leg, -, hfault⟩ := List.exists_of_findSome?_eq_some hleg
  rw [legFault?, Option.or_eq_some_iff] at hfault
  obtain hfault | ⟨-, hfault⟩ := hfault
  · exact unknownStop?_ne_time _ _ hfault
  · exact durationFault?_ne_time _ _ hfault

theorem transfersFault?_ne_time (r : Request) (settings : Settings) (time : Time) :
    r.transfersFault? settings ≠ some (.time time) := by
  simp only [transfersFault?]
  split <;> simp

theorem dateFault?_ne_time (r : Request) (settings : Settings) (time : Time) :
    r.dateFault? settings t ≠ some (.time time) := by
  unfold dateFault?
  split
  · simp
  · simp only
    split <;> simp

/-- A request that keeps within two days is refused for its time only if that is negative. -/
theorem accept_time_iff {r : Request} (hlate : r.time ≤ 2 * secondsOfDay) (settings : Settings) :
    (∃ time, r.accept settings t = .error (.time time))
      ↔ r.windowFault? settings = none ∧ r.time < 0 := by
  have hwindow : ∀ time, r.windowFault? settings ≠ some (.time time) := by
    intro time
    simp only [windowFault?]
    split <;> simp
  have htime : ∀ e, r.timeFault? = some e ↔ r.time < 0 ∧ e = .time r.time := by
    intro e
    unfold timeFault?
    split <;> grind
  have hfault : (∃ time, r.accept settings t = .error (.time time))
      ↔ ∃ time, r.fault? settings t = some (.time time) := by
    unfold accept
    cases r.fault? settings t <;> simp
  rw [hfault]
  constructor
  · rintro ⟨time, hfault⟩
    simp only [fault?, Option.or_eq_some_iff] at hfault
    obtain h | ⟨hnone, h | ⟨-, h | ⟨-, h | ⟨-, h | ⟨-, h | ⟨-, h | ⟨-, h⟩⟩⟩⟩⟩⟩⟩ := hfault
    · exact absurd h (hwindow time)
    · exact ⟨hnone, ((htime _).mp h).1⟩
    · exact absurd h (streetFault?_ne_time r time)
    · obtain ⟨stop, -, h⟩ := List.exists_of_findSome?_eq_some h
      exact absurd h (unknownStop?_ne_time stop time)
    · simp at h
    · exact absurd h (transfersFault?_ne_time r settings time)
    · exact absurd h (durationFault?_ne_time _ time)
    · exact absurd h (dateFault?_ne_time r settings time)
  · rintro ⟨hnone, hearly⟩
    exact ⟨r.time, by rw [fault?, hnone, (htime _).mpr ⟨hearly, rfl⟩]; rfl⟩

/-- For every instant whose local clock shows a date there is a request for that date and for
the time, to the second, from the start of its service. The request is refused for its time
exactly if service starts at least a second later, which is only so within an hour after
midnight where clocks are set back before noon. -/
theorem atMoment_of_localDate? (hzone : t.zone ∈ Zone.all) (hnanos : nanos < 1000000000)
    (hdate : ServiceDay.localDate? instant t.zone = some date) (direction : Direction)
    (access egress : List StreetLeg) :
    ∃ (begin : Int) (r : Request), ServiceDay.start date t.zone = .ok begin
      ∧ atMoment t instant nanos direction access egress = .ok r ∧ r.date = date
      ∧ begin + r.time = instant + (if instant < begin ∧ nanos ≠ 0 then 1 else 0)
      ∧ (∀ settings, (∃ time, r.accept settings t = .error (.time time))
        ↔ r.windowFault? settings = none ∧ r.time < 0)
      ∧ (instant < begin → t.zone.offsetAt (begin + 43200) < t.zone.offsetAt instant
        ∧ (instant + t.zone.offsetAt instant) % 86400 < 3600) := by
  obtain ⟨begin, hs⟩ := ServiceDay.exists_starts hzone hdate
  obtain ⟨hlow, hhigh⟩ := hs.bounds hdate
  have htime := ServiceDay.secondsSince_eq hnanos hlow hhigh
  have hrequest : atMoment t instant nanos direction access egress
      = .ok ⟨date, ServiceDay.secondsSince begin instant nanos, direction, none, none, access,
        egress, {}, {}, none, false, false, [], [], none, true⟩ := by
    rw [atMoment, ServiceDay.dateAndTime, hdate]
    simp only [hs.start]
  refine ⟨begin, _, hs.start, hrequest, rfl, htime, accept_time_iff ?_, hs.repeated hdate⟩
  simp only [secondsOfDay]
  grind

end Request

theorem Builder.zone_build {b : Builder} {t : Timetable} (h : b.build.2 = .ok t) :
    t.zone = b.zone := by
  unfold build at h
  split at h
  · exact absurd h (by simp)
  · simp only [Except.ok.injEq] at h
    subst h
    rfl

namespace ClockChange

open ThreeLines (line)

/-- Clocks in Oslo are set back by an hour in the night before this morning. -/
def day : Date := ⟨20023, by decide⟩

def builder : Builder :=
  { Builder.ofTrips ["O", "D"] "W" [day] [line "d" "a" [("O", 120), ("D", 300)]] with
    zone := .oslo }

def timetable : Timetable :=
  builder.timetable (by decide +kernel)

/-- Half past midnight by local clocks. -/
def halfPast : Instant := 1729981800

theorem zone_timetable : timetable.zone = .oslo :=
  Builder.zone_build (builder.build_eq_timetable _)

theorem zone_mem : timetable.zone ∈ Zone.all := by
  rw [zone_timetable]
  exact List.mem_cons_of_mem _ List.mem_cons_self

theorem start_day : ServiceDay.start day timetable.zone = .ok (halfPast + 1800) := by
  rw [zone_timetable]
  decide +kernel

theorem localDate?_halfPast : ServiceDay.localDate? halfPast timetable.zone = some day := by
  rw [zone_timetable]
  decide +kernel

end ClockChange

theorem Request.clockChange_resolved : ∃ (begin : Int) (r : Request),
    ServiceDay.start ClockChange.day ClockChange.timetable.zone = .ok begin
      ∧ Request.atMoment ClockChange.timetable ClockChange.halfPast 500000000 .forward [⟨0, 0⟩]
        [⟨1, 0⟩] = .ok r
      ∧ r.date = ClockChange.day ∧ begin + r.time = ClockChange.halfPast + 1 := by
  obtain ⟨begin, r, hstart, hr, hdate, htime, -, -⟩ := atMoment_of_localDate? ClockChange.zone_mem
    (by decide : 500000000 < 1000000000) ClockChange.localDate?_halfPast .forward [⟨0, 0⟩] [⟨1, 0⟩]
  refine ⟨begin, r, hstart, hr, hdate, ?_⟩
  obtain rfl := Except.ok.inj (hstart.symm.trans ClockChange.start_day)
  exact htime

/-- Half an hour after midnight is half an hour before service starts. -/
theorem Request.clockChange_refused :
    ClockChange.timetable.zone ∈ Zone.all
      ∧ ServiceDay.localDate? ClockChange.halfPast ClockChange.timetable.zone = some ClockChange.day
      ∧ ClockChange.timetable.calendar.period = some (ClockChange.day, ClockChange.day)
      ∧ ∃ r, Request.atInstant ClockChange.timetable ClockChange.halfPast .forward [⟨0, 0⟩]
          [⟨1, 0⟩] = .ok r
        ∧ r.accept {} ClockChange.timetable = .error (.time (-1800)) := by
  refine ⟨ClockChange.zone_mem, ClockChange.localDate?_halfPast, by decide +kernel,
    .departAfter ClockChange.day (-1800) [⟨0, 0⟩] [⟨1, 0⟩], ?_, rfl⟩
  rw [Request.atInstant, Request.atMoment, ServiceDay.dateAndTime, ClockChange.localDate?_halfPast]
  simp only [ClockChange.start_day]
  rfl

end JourneyPlanner
