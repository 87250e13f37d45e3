import JourneyPlanner.Proofs.Fallible
import JourneyPlanner.Proofs.Chronology
import JourneyPlanner.Realtime.Feed

/-!
Real-time versions of trips. Whatever updates were published for a timetable, a
real-time version keeps all that was published of its trip and has as many calls.
-/

namespace JourneyPlanner

/-- Nobody gets on or off at a cancelled call. -/
def Call.IsShut (c : Call) : Prop :=
  c.isCancelled = true → c.pickup = .unavailable ∧ c.dropOff = .unavailable

namespace Trip

/-- The same trip with calls that may be other ones. -/
structure Revises (base t : Trip) : Prop where
  details : t.details = base.details
  shift : t.shift = base.shift
  schedule : t.schedule = base.schedule
  headsigns : t.headsigns = base.headsigns
  length : t.calls.length = base.schedule.length
  shut : ∀ c ∈ t.calls, c.IsShut
  unchanged : t.live = none → t = base

theorem isShut_of_mem_scheduledCalls {t : Trip} {c : Call} (hc : c ∈ t.scheduledCalls) :
    c.IsShut := by
  obtain ⟨scheduled, -, rfl⟩ := List.mem_map.mp hc
  intro hcancelled
  simp [ScheduledCall.shiftedBy] at hcancelled

namespace Revises

variable {base t t' : Trip} {position : Nat}

theorem refl {t : Trip} (h : t.live = none) : Revises t t where
  details := rfl
  shift := rfl
  schedule := rfl
  headsigns := rfl
  length := by simp [calls, h, scheduledCalls]
  shut c hc := by
    simp only [calls, h, Option.getD_none] at hc
    exact isShut_of_mem_scheduledCalls hc
  unchanged _ := rfl

theorem changeCall? (h : Revises base t) {change : Call → Call}
    (ht : t.changeCall? position change = some t')
    (hchange : ∀ c, c.IsShut → (change c).IsShut) : Revises base t' := by
  have hmake : Revises base t.makeLive := by
    unfold makeLive
    split
    · exact h
    · refine ⟨h.details, h.shift, h.schedule, h.headsigns, ?_, ?_, ?_⟩
      · simp [calls, scheduledCalls, h.schedule]
      · exact fun c hc => isShut_of_mem_scheduledCalls hc
      · exact fun hlive => absurd hlive (Option.some_ne_none _)
  simp only [Trip.changeCall?, Option.ite_none_right_eq_some, Option.some_inj] at ht
  obtain ⟨-, rfl⟩ := ht
  refine ⟨hmake.details, hmake.shift, hmake.schedule, hmake.headsigns, ?_, fun c hc => ?_,
    fun hlive => absurd hlive (Option.some_ne_none _)⟩
  · simpa [calls] using hmake.length
  · obtain ⟨i, hi⟩ := List.getElem?_of_mem hc
    simp only [calls, Option.getD_some, List.getElem?_modify, Option.map_eq_map,
      Option.map_eq_some_iff] at hi
    obtain ⟨old, hold, rfl⟩ := hi
    have hshut := hmake.shut old (List.mem_of_getElem? hold)
    split
    · exact hchange old hshut
    · exact hshut

theorem cancel (h : Revises base t) : Revises base t.cancel :=
  ⟨h.details, h.shift, h.schedule, h.headsigns, by
    have hlength := h.length
    simpa [Trip.cancel, calls] using hlength, by
    intro c hc
    simp only [Trip.cancel, calls, Option.getD_some, List.mem_map] at hc
    obtain ⟨old, -, rfl⟩ := hc
    exact fun _ => ⟨rfl, rfl⟩,
    fun hlive => absurd hlive (Option.some_ne_none _)⟩

theorem calls_of_scheduled (h : Revises base t) (ht : t.live = none) :
    t.calls = base.scheduledCalls := by
  simp only [calls, ht, Option.getD_none, scheduledCalls, h.schedule, h.shift]

/-- A version that a search may use does not decrease in time, if what was published does
not. -/
theorem chronological (h : Revises base t)
    (hbase : t.live = none → Chronological base.scheduledCalls) (hu : t.isUsable = true) :
    Chronological t.calls := by
  simp only [isUsable, Bool.and_eq_true, Bool.or_eq_true] at hu
  cases hu.2 with
  | inl hscheduled =>
      have hnone : t.live = none := by simpa [isScheduled] using hscheduled
      exact h.calls_of_scheduled hnone ▸ hbase hnone
  | inr hmonotonic => exact chronological_of_decrease? (by simpa [isMonotonic] using hmonotonic)

/-- Only cancelled versions and those that decrease in time are of no use. -/
theorem isUsable_iff (h : Revises base t)
    (hbase : t.live = none → Chronological base.scheduledCalls) :
    t.isUsable = true ↔ t.isCanceled = false ∧ Chronological t.calls := by
  constructor
  · intro husable
    refine ⟨?_, h.chronological hbase husable⟩
    simp only [isUsable, Bool.and_eq_true, Bool.not_eq_true'] at husable
    exact husable.1
  · rintro ⟨hruns, hchronological⟩
    simp [isUsable, isMonotonic, hruns, decrease?_eq_none_iff.mpr hchronological]

end Revises
end Trip

namespace LiveTrips

/-- Every real-time version is one of a trip of the timetable. -/
def Revise (t : Timetable) (m : LiveTrips) : Prop :=
  ∀ key trip, Association.find? key m = some trip →
    ∃ base, t.scheduledTrip? key = some base ∧ base.Revises trip

variable {t : Timetable} {m : LiveTrips}

theorem revise_put (h : Revise t m) {key : TripKey} {base trip : Trip}
    (hbase : t.scheduledTrip? key = some base) (htrip : base.Revises trip) :
    Revise t (Association.put key trip m) := by
  intro key' trip' hfind
  rw [Association.find?_put] at hfind
  split at hfind
  case isTrue heq =>
    rw [Option.some_inj] at hfind
    subst heq hfind
    exact ⟨base, hbase, htrip⟩
  case isFalse => exact h key' trip' hfind

theorem revise_erase (h : Revise t m) (key : TripKey) : Revise t (Association.erase key m) := by
  intro key' trip' hfind
  rw [Association.find?_erase] at hfind
  split at hfind
  case isTrue => simp at hfind
  case isFalse => exact h key' trip' hfind

theorem revises_current (h : Revise t m)
    (ht : ∀ key trip, t.scheduledTrip? key = some trip → trip.live = none) {key : TripKey}
    {trip : Trip} (hc : m.current t key = .ok trip) :
    ∃ base, t.scheduledTrip? key = some base ∧ base.Revises trip := by
  unfold current at hc
  cases hf : Association.find? key m with
  | some live =>
      simp only [hf, Except.ok.injEq] at hc
      exact h key trip (hc ▸ hf)
  | none =>
      cases hs : t.scheduledTrip? key with
      | none => simp [hf, hs] at hc
      | some base =>
          simp only [hf, hs, Except.ok.injEq] at hc
          subst hc
          exact ⟨base, rfl, .refl (ht key base hs)⟩

/-- Whatever version of a trip is in use, it is one of a trip of the timetable. -/
theorem revises_of_trip? {version : Nat} (h : Revise t m)
    (ht : ∀ key trip, t.scheduledTrip? key = some trip → trip.live = none) {key : TripKey}
    {trip : Trip} (hc : ({ trips := m, version := version } : Snapshot).trip? t key = some trip) :
    ∃ base, t.scheduledTrip? key = some base ∧ base.Revises trip := by
  rcases Option.or_eq_some_iff.mp hc with hlive | ⟨-, hbase⟩
  · exact h key trip hlive
  · exact ⟨trip, hbase, .refl (ht key trip hbase)⟩

end LiveTrips

namespace Feed

/-- Feeds of a timetable after any number of publications. -/
inductive Running (t : Timetable) : Feed → Prop where
  | start : Running t { timetable := t }
  | applyUpdates {f : Feed} (h : Running t f) (us : List TripUpdate) :
      Running t (f.applyUpdates us).1
  | transact {f f' : Feed} (h : Running t f) {us : List TripUpdate} {notices : List Notice}
      {outcomes : List UpdateOutcome} (hf : f.transact us = (notices, .ok (f', outcomes))) :
      Running t f'
  | clear {f : Feed} (h : Running t f) : Running t f.clear

end Feed
end JourneyPlanner
