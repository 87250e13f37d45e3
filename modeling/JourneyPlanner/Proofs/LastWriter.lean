import JourneyPlanner.Proofs.FeedHistory

/-!
What a trip is after many updates. At each call the last update that writes a time has its
way, whatever is cancelled or marked stays so, and what was published stays readable.
-/

namespace JourneyPlanner

namespace CallUpdate

/-- One after the other. -/
def ofAll (xs : List CallUpdate) : CallUpdate :=
  xs.foldr andThen {}

/-- The last time that is written remains. -/
theorem time_ofAll {time? : CallUpdate → Option Time} (hempty : time? {} = none)
    (hthen : ∀ x y, time? (x.andThen y) = (time? y).or (time? x)) (xs : List CallUpdate) :
    time? (ofAll xs) = xs.reverse.findSome? time? := by
  induction xs with
  | nil => exact hempty
  | cons x xs ih =>
      change time? (x.andThen (ofAll xs)) = _
      rw [hthen, ih, List.reverse_cons, List.findSome?_append, List.findSome?_singleton]

/-- A mark that is set is never taken away. -/
theorem mark_ofAll {mark : CallUpdate → Bool} (hempty : mark {} = false)
    (hthen : ∀ x y, mark (x.andThen y) = (mark y || mark x)) (xs : List CallUpdate) :
    mark (ofAll xs) = xs.any mark := by
  induction xs with
  | nil => exact hempty
  | cons x xs ih =>
      change mark (x.andThen (ofAll xs)) = _
      rw [hthen, ih, List.any_cons, Bool.or_comm]

end CallUpdate

namespace Trip

variable {base trip trip' : Trip} {us : List TripUpdate}

/-- What remains of some updates at one position of a trip. -/
structure IsUpdatedAt (base : Trip) (us : List TripUpdate) (trip : Trip) (p : Nat) : Prop where
  arrival : trip.arrival? p =
    (us.reverse.findSome? fun u => (u.atCall base p).arrival).or (base.scheduledArrival? p)
  departure : trip.departure? p =
    (us.reverse.findSome? fun u => (u.atCall base p).departure).or (base.scheduledDeparture? p)
  cancelled : trip.isCancelledAt p = us.any fun u => (u.atCall base p).isCancelled
  pickup : trip.pickup? p =
    if trip.isCancelledAt p then some .unavailable else base.schedule[p]?.map (·.pickup)
  dropOff : trip.dropOff? p =
    if trip.isCancelledAt p then some .unavailable else base.schedule[p]?.map (·.dropOff)
  recorded : trip.isRecordedAt p = us.any fun u => (u.atCall base p).isRecorded
  inaccurate : trip.isInaccurateAt p = us.any fun u => (u.atCall base p).isInaccurate

/-- What remains of some updates of a trip, and what they leave alone. -/
structure IsUpdatedBy (base : Trip) (us : List TripUpdate) (trip : Trip) : Prop where
  length : trip.calls.length = base.numCalls
  updated : ∀ p < base.numCalls, base.IsUpdatedAt us trip p
  canceled : trip.isCanceled = us.any TripUpdate.isCancelTrip
  numCalls : trip.numCalls = base.numCalls
  arrival : ∀ p, trip.scheduledArrival? p = base.scheduledArrival? p
  departure : ∀ p, trip.scheduledDeparture? p = base.scheduledDeparture? p
  headsign : ∀ p, trip.headsign? p = base.headsign? p
  sequence : ∀ p, trip.sequence? p = base.sequence? p
  timepoint : ∀ p, trip.isTimepoint p = base.isTimepoint p

/-- Updates of calls that are there write one after the other. -/
theorem rewrites_foldlM (hruns : base.isCanceled = false) (h : base.Revises trip)
    (hus : ∀ u ∈ us, u.isRevert = false ∧ ∀ stop, u.stop? = some stop → base.HasStop stop)
    (hfold : us.foldlM (fun trip u => u.onTrip? base trip) trip = some trip') :
    base.Rewrites trip trip' (fun p => .ofAll (us.map fun u => u.atCall base p))
      (us.any TripUpdate.isCancelTrip) := by
  induction us generalizing trip with
  | nil =>
      obtain rfl : trip = trip' := by simpa using hfold
      exact .refl h
  | cons u us ih =>
      obtain ⟨⟨hrevert, hstop⟩, hlater⟩ := List.forall_mem_cons.mp hus
      obtain ⟨next, hnext, hfirst⟩ := TripUpdate.rewrites_onTrip? hruns h hrevert hstop
      rw [List.foldlM_cons, hnext] at hfold
      rw [List.any_cons, Bool.or_comm]
      exact hfirst.trans (ih hfirst.revises hlater hfold)

section Rewritten

variable (hlive : base.live = none)
  (h : base.Rewrites base trip (fun p => .ofAll (us.map fun u => u.atCall base p))
    (us.any TripUpdate.isCancelTrip))

include hlive h

theorem isUpdatedAt_of_rewrites {p : Nat} (hp : p < base.numCalls) : base.IsUpdatedAt us trip p := by
  obtain ⟨c, hc⟩ : ∃ c, base.schedule[p]? = some c := ⟨_, List.getElem?_eq_getElem hp⟩
  have hcall : trip.call? p = some ((CallUpdate.ofAll (us.map fun u => u.atCall base p)).on
      (c.shiftedBy base.shift)) := by
    rw [call?_eq, h.calls p, calls, hlive, Option.getD_none, ← scheduledCall?_eq, scheduledCall?, hc]
    rfl
  have htime : ∀ {time? : CallUpdate → Option Time}, time? {} = none →
      (∀ x y : CallUpdate, time? (x.andThen y) = (time? y).or (time? x)) → ∀ time : Time,
        some ((time? (.ofAll (us.map fun u => u.atCall base p))).getD time)
          = (us.reverse.findSome? fun u => time? (u.atCall base p)).or (some time) :=
    fun hempty hthen time => by
      rw [CallUpdate.time_ofAll hempty hthen, ← List.map_reverse, List.findSome?_map]
      exact (Option.or_some ..).symm
  have hmark : ∀ {mark : CallUpdate → Bool}, mark {} = false →
      (∀ x y : CallUpdate, mark (x.andThen y) = (mark y || mark x)) →
        (mark (.ofAll (us.map fun u => u.atCall base p)) || false)
          = us.any fun u => mark (u.atCall base p) :=
    fun hempty hthen => by
      rw [CallUpdate.mark_ofAll hempty hthen, List.any_map, Bool.or_false]
      rfl
  have hcancelled : trip.isCancelledAt p
      = (CallUpdate.ofAll (us.map fun u => u.atCall base p)).isCancelled := by
    rw [isCancelledAt, hcall]
    exact Bool.or_false _
  constructor
  case arrival =>
    rw [arrival?, hcall, scheduledArrival?, scheduledCall?, hc]
    exact htime rfl (fun _ _ => rfl) _
  case departure =>
    rw [departure?, hcall, scheduledDeparture?, scheduledCall?, hc]
    exact htime rfl (fun _ _ => rfl) _
  case cancelled =>
    rw [isCancelledAt, hcall]
    exact hmark rfl fun _ _ => rfl
  case recorded =>
    rw [isRecordedAt, hcall]
    exact hmark rfl fun _ _ => rfl
  case inaccurate =>
    rw [isInaccurateAt, hcall]
    exact hmark rfl fun _ _ => rfl
  case pickup =>
    rw [hcancelled, pickup?, hcall, hc]
    exact apply_ite some ..
  case dropOff =>
    rw [hcancelled, dropOff?, hcall, hc]
    exact apply_ite some ..

theorem isUpdatedBy_of_rewrites (hruns : base.isCanceled = false) : base.IsUpdatedBy us trip := by
  obtain ⟨hdetails, hshift, hschedule, hheadsigns, hlength, -⟩ := h.revises
  refine ⟨hlength, fun p hp => isUpdatedAt_of_rewrites hlive h hp, ?_, congrArg List.length hschedule,
    fun p => ?_, fun p => ?_, fun p => ?_, fun p => ?_, fun p => ?_⟩
  · rw [h.canceled, hruns, Bool.or_false]
  · rw [scheduledArrival?, scheduledCall?, hschedule, hshift]
    rfl
  · rw [scheduledDeparture?, scheduledCall?, hschedule, hshift]
    rfl
  · rw [headsign?, hheadsigns, hdetails]
    rfl
  · rw [sequence?, hschedule]
    rfl
  · rw [isTimepoint, hschedule]
    rfl

end Rewritten

end Trip

namespace Feed

variable {b : Builder} {t : Timetable} {key : TripKey} {base : Trip}

end Feed

end JourneyPlanner
