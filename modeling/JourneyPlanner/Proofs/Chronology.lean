import JourneyPlanner.Trip.Live

/-!
Trips whose times do not decrease, and what becomes of that when a trip is
repeated at another time or put on another day.
-/

namespace JourneyPlanner

/-- Nobody leaves before arriving, at any call and between any two. -/
structure Chronological (calls : List Call) : Prop where
  dwell : ∀ c ∈ calls, c.arrival ≤ c.departure
  run : calls.Pairwise fun c d => c.departure ≤ d.arrival

namespace Call

def times (c : Call) : Time × Time :=
  (c.arrival, c.departure)

/-- 32 bits hold the times of the call so many seconds later. -/
structure FitsLater (c : Call) (seconds : Int) : Prop where
  arrival : Time.Fits (c.arrival + seconds)
  departure : Time.Fits (c.departure + seconds)

instance (c : Call) (seconds : Int) : Decidable (c.FitsLater seconds) :=
  decidable_of_iff (Time.Fits (c.arrival + seconds) ∧ Time.Fits (c.departure + seconds))
    ⟨fun h => ⟨h.1, h.2⟩, fun h => ⟨h.arrival, h.departure⟩⟩

theorem FitsLater.later {c : Call} {seconds : Time} (h : c.FitsLater seconds) :
    c.later seconds
      = { c with arrival := c.arrival + seconds, departure := c.departure + seconds } := by
  simp only [Call.later, Time.wrap_of_fits h.arrival, Time.wrap_of_fits h.departure]

theorem later_later (c : Call) (a b : Time) : (c.later a).later b = c.later (a + b) := by
  simp only [Call.later, Time.wrap_wrap_add, Int.add_assoc]

/-- Moving a call further than 32 bits can tell makes no difference. -/
theorem later_wrap (c : Call) (seconds : Int) : c.later (Time.wrap seconds) = c.later seconds := by
  simp only [Call.later, Time.wrap_add_wrap]

end Call

/-- The call of a trip that is not shifted. -/
def ScheduledCall.unshifted (c : ScheduledCall) : Call where
  arrival := c.arrival
  departure := c.departure
  pickup := c.pickup
  dropOff := c.dropOff

/-- 32 bits hold how far the times of a trip are from its first arrival, and the times. -/
structure Trip.Fits (t : Trip) : Prop where
  relative : ∀ c ∈ t.schedule, 0 ≤ c.arrival ∧ 0 ≤ c.departure
  shifted : ∀ c ∈ t.schedule, c.unshifted.FitsLater t.shift

instance (t : Trip) : Decidable t.Fits :=
  decidable_of_iff ((∀ c ∈ t.schedule, 0 ≤ c.arrival ∧ 0 ≤ c.departure)
      ∧ ∀ c ∈ t.schedule, c.unshifted.FitsLater t.shift)
    ⟨fun h => ⟨h.1, h.2⟩, fun h => ⟨h.relative, h.shifted⟩⟩

namespace Chronological

/-- Nothing else than its times matters of a call. -/
theorem of_times {calls calls' : List Call} (h : Chronological calls)
    (ht : calls'.map Call.times = calls.map Call.times) : Chronological calls' where
  dwell := by
    intro c hc
    have hmem : c.times ∈ calls.map Call.times := ht ▸ List.mem_map_of_mem hc
    obtain ⟨d, hd, htimes⟩ := List.mem_map.mp hmem
    obtain ⟨harrival, hdeparture⟩ := Prod.mk.inj htimes
    exact harrival ▸ hdeparture ▸ h.dwell d hd
  run := by
    have hrun : (calls.map Call.times).Pairwise fun c d => c.2 ≤ d.1 := List.pairwise_map.mpr h.run
    exact List.pairwise_map.mp (ht ▸ hrun)

/-- Of a trip that never stands still only next calls need to be compared. -/
theorem cons {c : Call} {calls : List Call} (h : Chronological calls)
    (hc : c.arrival ≤ c.departure) (hnext : ∀ d, calls.head? = some d → c.departure ≤ d.arrival) :
    Chronological (c :: calls) where
  dwell := by
    intro d hd
    cases hd with
    | head => exact hc
    | tail _ hd => exact h.dwell d hd
  run := by
    refine List.pairwise_cons.mpr ⟨?_, h.run⟩
    cases calls with
    | nil => simp
    | cons e rest =>
        intro d hd
        have he := hnext e rfl
        cases hd with
        | head => exact he
        | tail _ hd =>
            have hdwell := h.dwell e (List.mem_cons_self ..)
            have hrun := (List.pairwise_cons.mp h.run).1 d hd
            exact Int.le_trans he (Int.le_trans hdwell hrun)

/-- As long as 32 bits hold the times that come of it, moving calls keeps their order. -/
theorem later {calls : List Call} (h : Chronological calls) {seconds : Time}
    (hfits : ∀ c ∈ calls, c.FitsLater seconds) :
    Chronological (calls.map fun c => c.later seconds) where
  dwell := by
    intro c hc
    obtain ⟨d, hd, rfl⟩ := List.mem_map.mp hc
    rw [(hfits d hd).later]
    exact Int.add_le_add_right (h.dwell d hd) seconds
  run := by
    refine List.pairwise_map.mpr (h.run.imp_of_mem fun {c d} hc hd hcd => ?_)
    rw [(hfits c hc).later, (hfits d hd).later]
    exact Int.add_le_add_right hcd seconds

theorem first_le {calls : List Call} (h : Chronological calls) {first c : Call}
    (hfirst : calls.head? = some first) (hc : c ∈ calls) :
    first.arrival ≤ c.arrival ∧ first.arrival ≤ c.departure := by
  obtain ⟨rest, rfl⟩ := List.head?_eq_some_iff.mp hfirst
  have hdwell := h.dwell first (List.mem_cons_self ..)
  rcases List.mem_cons.mp hc with rfl | hrest
  · exact ⟨Int.le_refl _, hdwell⟩
  · have hrun := Int.le_trans hdwell ((List.pairwise_cons.mp h.run).1 c hrest)
    exact ⟨hrun, Int.le_trans hrun (h.dwell c hc)⟩

theorem departure_le {calls : List Call} (h : Chronological calls) {i j : Nat} (hij : i < j)
    {c d : Call} (hc : calls[i]? = some c) (hd : calls[j]? = some d) : c.departure ≤ d.arrival := by
  obtain ⟨hi, rfl⟩ := List.getElem?_eq_some_iff.mp hc
  obtain ⟨hj, rfl⟩ := List.getElem?_eq_some_iff.mp hd
  exact List.pairwise_iff_getElem.mp h.run i j hi hj hij

end Chronological

namespace Trip

theorem chronological_of_decreaseFrom? {i : Nat} {previous : Option Time} {calls : List Call}
    (h : decreaseFrom? i previous calls = none) :
    Chronological calls
      ∧ ∀ p, previous = some p → ∀ d, calls.head? = some d → p ≤ d.arrival := by
  induction calls generalizing i previous with
  | nil => exact ⟨⟨by simp, .nil⟩, by simp⟩
  | cons c cs ih =>
      unfold decreaseFrom? at h
      split at h
      case isTrue => simp at h
      case isFalse hdwell =>
        split at h
        case isTrue => simp at h
        case isFalse hrun =>
          obtain ⟨hcs, hnext⟩ := ih h
          refine ⟨hcs.cons (Int.not_lt.mp hdwell) (hnext _ rfl), ?_⟩
          rintro p rfl d hd
          simp only [List.head?_cons, Option.some_inj] at hd
          subst hd
          simpa using hrun

theorem chronological_of_decrease? {t : Trip} (h : t.decrease? = none) : Chronological t.calls :=
  (chronological_of_decreaseFrom? h).1

theorem decreaseFrom?_eq_none {i : Nat} {previous : Option Time} {calls : List Call}
    (h : Chronological calls)
    (hp : ∀ p, previous = some p → ∀ d, calls.head? = some d → p ≤ d.arrival) :
    decreaseFrom? i previous calls = none := by
  induction calls generalizing i previous with
  | nil => rfl
  | cons c cs ih =>
      obtain ⟨hfirst, hrun⟩ := List.pairwise_cons.mp h.run
      have hcs : Chronological cs := ⟨fun d hd => h.dwell d (List.mem_cons_of_mem _ hd), hrun⟩
      unfold decreaseFrom?
      rw [if_neg (Int.not_lt.mpr (h.dwell c (List.mem_cons_self ..))), if_neg]
      · refine ih hcs fun p hprevious d hd => ?_
        obtain rfl := Option.some.inj hprevious
        exact hfirst d (List.mem_of_mem_head? hd)
      · cases previous with
        | none => simp
        | some p => simpa using hp p rfl c rfl

theorem decrease?_eq_none_iff {t : Trip} : t.decrease? = none ↔ Chronological t.calls :=
  ⟨chronological_of_decrease?, fun h => decreaseFrom?_eq_none h (by simp)⟩

theorem scheduledCalls_eq (t : Trip) :
    t.scheduledCalls = (t.schedule.map ScheduledCall.unshifted).map fun c => c.later t.shift := by
  simp only [scheduledCalls, List.map_map]
  rfl

/-- Whether the times of a trip decrease can be seen without its shift, unless 32 bits do not
hold what is left of them. -/
theorem chronological_unshifted {t : Trip} (h : Chronological t.scheduledCalls)
    (hkept : ∀ c ∈ t.schedule, Time.Fits c.arrival ∧ Time.Fits c.departure)
    (hfirst : ∀ c, t.schedule.head? = some c → c.arrival = 0)
    (hrelative : ∀ c ∈ t.schedule, 0 ≤ c.arrival ∧ 0 ≤ c.departure) :
    Chronological (t.schedule.map ScheduledCall.unshifted) := by
  have hshifted : ∀ c ∈ t.schedule, Time.wrap (c.arrival + t.shift) = c.arrival + Time.wrap t.shift
      ∧ Time.wrap (c.departure + t.shift) = c.departure + Time.wrap t.shift := by
    intro c hc
    obtain ⟨first, hhead⟩ : ∃ first, t.schedule.head? = some first := by
      cases hs : t.schedule with
      | nil => simp [hs] at hc
      | cons first rest => exact ⟨first, rfl⟩
    have hfirst' : t.scheduledCalls.head? = some (first.shiftedBy t.shift) := by
      rw [scheduledCalls, List.head?_map, hhead]
      rfl
    have hmem : c.shiftedBy t.shift ∈ t.scheduledCalls := List.mem_map_of_mem hc
    have hle := h.first_le hfirst' hmem
    simp only [ScheduledCall.shiftedBy, hfirst first hhead, Int.zero_add] at hle
    exact ⟨Time.wrap_add_of_le (hrelative c hc).1 (hkept c hc).1 hle.1,
      Time.wrap_add_of_le (hrelative c hc).2 (hkept c hc).2 hle.2⟩
  refine ⟨fun c hc => ?_, List.pairwise_map.mpr ?_⟩
  · obtain ⟨d, hd, rfl⟩ := List.mem_map.mp hc
    have hdwell := h.dwell (d.shiftedBy t.shift) (List.mem_map_of_mem hd)
    simp only [ScheduledCall.shiftedBy, hshifted d hd] at hdwell
    exact Int.le_of_add_le_add_right hdwell
  · refine (List.pairwise_map.mp h.run).imp_of_mem fun {c d} hc hd hrun => ?_
    simp only [ScheduledCall.shiftedBy, hshifted c hc, hshifted d hd] at hrun
    exact Int.le_of_add_le_add_right hrun

theorem Fits.chronological {t : Trip} (h : t.Fits)
    (hunshifted : Chronological (t.schedule.map ScheduledCall.unshifted)) :
    Chronological t.scheduledCalls := by
  rw [scheduledCalls_eq]
  refine hunshifted.later fun c hc => ?_
  obtain ⟨d, hd, rfl⟩ := List.mem_map.mp hc
  exact h.shifted d hd

/-- A repetition calls at the same intervals. -/
theorem scheduledCalls_startingAt (t : Trip) (details : TripDetails) (departure : Time) :
    (t.startingAt details departure).scheduledCalls =
      t.scheduledCalls.map fun c =>
        c.later ((t.startingAt details departure).shift - t.shift) := by
  simp only [scheduledCalls_eq, List.map_map]
  refine List.map_congr_left fun c _ => ?_
  simp only [Function.comp_apply, Call.later_later]
  exact congrArg c.unshifted.later (by grind)

end Trip
end JourneyPlanner
