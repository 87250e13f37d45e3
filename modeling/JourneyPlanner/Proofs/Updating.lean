import JourneyPlanner.Proofs.Publication

/-!
What updates do to a trip. Each writes to some of its calls, cancels it or takes it back to
the timetable; what it does not write stays as it is.
-/

namespace JourneyPlanner

/-- What is written to one call; what is not given stays as it is. -/
structure CallUpdate where
  arrival : Option Time := none
  departure : Option Time := none
  isCancelled : Bool := false
  isRecorded : Bool := false
  isInaccurate : Bool := false

namespace CallUpdate

variable {x y : CallUpdate}

/-- Nobody gets on or off at a call that was cancelled. -/
def on (x : CallUpdate) (c : Call) : Call where
  arrival := x.arrival.getD c.arrival
  departure := x.departure.getD c.departure
  pickup := if x.isCancelled then .unavailable else c.pickup
  dropOff := if x.isCancelled then .unavailable else c.dropOff
  isCancelled := x.isCancelled || c.isCancelled
  isRecorded := x.isRecorded || c.isRecorded
  isInaccurate := x.isInaccurate || c.isInaccurate

/-- One after the other; the later one has the last word. -/
def andThen (x y : CallUpdate) : CallUpdate where
  arrival := y.arrival.or x.arrival
  departure := y.departure.or x.departure
  isCancelled := y.isCancelled || x.isCancelled
  isRecorded := y.isRecorded || x.isRecorded
  isInaccurate := y.isInaccurate || x.isInaccurate

/-- Written at one position only. -/
def onlyAt (x : CallUpdate) (position p : Nat) : CallUpdate :=
  if position = p then x else {}

@[simp]
theorem on_empty (c : Call) : ({} : CallUpdate).on c = c :=
  rfl

theorem on_andThen (x y : CallUpdate) (c : Call) : (x.andThen y).on c = y.on (x.on c) := by
  have htime : ∀ (earlier later : Option Time) (time : Time),
      (later.or earlier).getD time = later.getD (earlier.getD time) := by
    rintro (_ | _) (_ | _) time <;> rfl
  cases hy : y.isCancelled <;> simp [on, andThen, htime, hy, Bool.or_assoc]

@[simp]
theorem andThen_empty (x : CallUpdate) : x.andThen {} = x := by
  simp [andThen]

@[simp]
theorem empty_andThen (x : CallUpdate) : CallUpdate.andThen {} x = x := by
  simp [andThen]

/-- Writing the same again makes no difference. -/
theorem andThen_self (x : CallUpdate) : x.andThen x = x := by
  simp [andThen]

theorem onlyAt_andThen (x y : CallUpdate) (position p : Nat) :
    (x.onlyAt position p).andThen (y.onlyAt position p) = (x.andThen y).onlyAt position p := by
  unfold onlyAt
  split <;> rfl

theorem isShut_on {c : Call} (h : c.IsShut) : (x.on c).IsShut := by
  intro hcancelled
  cases hx : x.isCancelled with
  | true => simp [on, hx]
  | false =>
      simp only [on, hx, Bool.false_or, Bool.false_eq_true, if_false] at hcancelled ⊢
      exact h hcancelled

end CallUpdate

namespace Trip

variable {base t t' t'' : Trip} {position : Nat} {stop : StopRef}

/-- Where a reference points to. -/
def positionOf? (t : Trip) : StopRef → Option Nat
  | .position p => if p < t.numCalls then some p else none
  | .sequence s => t.positionOfSequence? s

/-- Some call has that position or that sequence number. -/
def HasStop (t : Trip) : StopRef → Prop
  | .position p => p < t.numCalls
  | .sequence s => ∃ c ∈ t.schedule, c.sequence = s

theorem hasStop_iff : t.HasStop stop ↔ ∃ p, t.positionOf? stop = some p := by
  cases stop with
  | position p => simp [HasStop, positionOf?]
  | sequence s =>
      rw [HasStop, positionOf?, positionOfSequence?, ← Option.isSome_iff_exists,
        List.findIdx?_isSome, List.any_eq_true]
      simp only [beq_iff_eq]

theorem lt_of_positionOf? (h : t.positionOf? stop = some position) : position < t.numCalls := by
  cases stop with
  | position p =>
      simp only [positionOf?, Option.ite_none_right_eq_some, Option.some_inj] at h
      exact h.2 ▸ h.1
  | sequence s => exact (List.findIdx?_eq_some_iff_getElem.mp h).1

theorem calls_makeLive (t : Trip) : t.makeLive.calls = t.calls := by
  unfold makeLive
  split
  case h_1 => rfl
  case h_2 hnone => simp [calls, hnone]

theorem calls_changeCall? {change : Call → Call} (h : t.changeCall? position change = some t')
    (p : Nat) : t'.calls[p]? = t.calls[p]?.map (if position = p then change else id) := by
  simp only [changeCall?, Option.ite_none_right_eq_some, Option.some_inj] at h
  obtain ⟨-, rfl⟩ := h
  change (t.makeLive.calls.modify position change)[p]? = _
  rw [calls_makeLive, List.getElem?_modify]
  split <;> simp

/-- Changed calls do not cancel a trip. -/
theorem isCanceled_changeCall? {change : Call → Call} (hlive : t.live = none → t.isCanceled = false)
    (h : t.changeCall? position change = some t') : t'.isCanceled = t.isCanceled := by
  simp only [changeCall?, Option.ite_none_right_eq_some, Option.some_inj] at h
  obtain ⟨-, rfl⟩ := h
  change t.makeLive.isCanceled = t.isCanceled
  unfold makeLive
  split
  case h_1 => rfl
  case h_2 hnone => exact (hlive hnone).symm

/-- What was written to the calls of a trip from one version of it to a later one. -/
structure Rewrites (base t t' : Trip) (x : Nat → CallUpdate) (cancels : Bool) : Prop where
  revises : base.Revises t'
  canceled : t'.isCanceled = (cancels || t.isCanceled)
  calls : ∀ p, t'.calls[p]? = t.calls[p]?.map (x p).on

namespace Rewrites

variable {x y : Nat → CallUpdate} {a b : Bool}

theorem refl (h : base.Revises t) : base.Rewrites t t (fun _ => {}) false where
  revises := h
  canceled := rfl
  calls _ := (Option.map_id' ..).symm

theorem trans (h : base.Rewrites t t' x a) (h' : base.Rewrites t' t'' y b) :
    base.Rewrites t t'' (fun p => (x p).andThen (y p)) (b || a) where
  revises := h'.revises
  canceled := by rw [h'.canceled, h.canceled, Bool.or_assoc]
  calls p := by
    rw [h'.calls, h.calls, Option.map_map]
    exact congrArg (Option.map · _) (funext fun c => ((x p).on_andThen (y p) c).symm)

theorem congr (h : base.Rewrites t t' x a) (hxy : ∀ p, x p = y p) : base.Rewrites t t' y a :=
  funext hxy ▸ h

end Rewrites

/-- What a delay writes to a call. -/
def delayed (base : Trip) (arrival departure : Time) (p : Nat) : CallUpdate where
  arrival := (base.scheduledArrival? p).map fun time => Time.wrap (time + arrival)
  departure := (base.scheduledDeparture? p).map fun time => Time.wrap (time + departure)

section Calls

variable (hruns : base.isCanceled = false) (h : base.Revises t) (hp : position < base.numCalls)

include hruns h hp

theorem rewrites_changeCall? (x : CallUpdate) (change : Call → Call)
    (hchange : ∀ c, change c = x.on c) :
    ∃ t', t.changeCall? position change = some t'
      ∧ base.Rewrites t t' (x.onlyAt position) false := by
  have hlt : position < t.makeLive.calls.length := by
    rw [calls_makeLive, h.length]
    exact hp
  have hsome : t.changeCall? position change = some
      { t.makeLive with live := some (t.makeLive.calls.modify position change) } := if_pos hlt
  refine ⟨_, hsome, h.changeCall? hsome fun c hc => ?_, ?_, fun p => ?_⟩
  · exact hchange c ▸ CallUpdate.isShut_on hc
  · exact isCanceled_changeCall? (fun hnone => h.unchanged hnone ▸ hruns) hsome
  · rw [calls_changeCall? hsome, CallUpdate.onlyAt]
    split
    · rw [funext hchange]
    · rfl

theorem rewrites_delayCall (arrival departure : Time) : ∃ t₁ t',
    t.delayArrival? position arrival = some t₁ ∧ t₁.delayDeparture? position departure = some t'
      ∧ base.Rewrites t t' ((base.delayed arrival departure position).onlyAt position) false := by
  obtain ⟨c, hc⟩ : ∃ c, base.scheduledCall? position = some c :=
    ⟨_, by rw [scheduledCall?, List.getElem?_eq_getElem hp]; rfl⟩
  have hsame : ∀ {t : Trip}, base.Revises t → t.scheduledCall? position = some c := fun h => by
    rw [scheduledCall?, h.schedule, h.shift]
    exact hc
  obtain ⟨t₁, ht₁, hfirst⟩ := rewrites_changeCall? hruns h hp
    { arrival := some (Time.wrap (c.arrival + arrival)) }
    (fun old => { old with arrival := Time.wrap (c.arrival + arrival) }) fun _ => rfl
  obtain ⟨t', ht', hsecond⟩ := rewrites_changeCall? hruns hfirst.revises hp
    { departure := some (Time.wrap (c.departure + departure)) }
    (fun old => { old with departure := Time.wrap (c.departure + departure) }) fun _ => rfl
  have hdelayed : base.delayed arrival departure position = CallUpdate.andThen
      { arrival := some (Time.wrap (c.arrival + arrival)) }
      { departure := some (Time.wrap (c.departure + departure)) } := by
    simp [delayed, scheduledArrival?, scheduledDeparture?, hc, CallUpdate.andThen]
  refine ⟨t₁, t', ?_, ?_, ?_⟩
  · rw [delayArrival?, scheduledArrival?, hsame h]
    exact ht₁
  · rw [delayDeparture?, scheduledDeparture?, hsame hfirst.revises]
    exact ht'
  · rw [hdelayed, ← funext (CallUpdate.onlyAt_andThen _ _ position)]
    exact hfirst.trans hsecond

end Calls

section Operations

variable (hruns : base.isCanceled = false) (h : base.Revises t)

include hruns h

theorem rewrites_delayFrom? (delay : Time) (positions : List Nat)
    (hpositions : ∀ p ∈ positions, p < base.numCalls) :
    ∃ t', LiveTrips.delayFrom? t delay positions = some t' ∧ base.Rewrites t t'
      (fun p => if p ∈ positions then base.delayed delay delay p else {}) false := by
  induction positions generalizing t with
  | nil => exact ⟨t, rfl, by simpa using Rewrites.refl h⟩
  | cons position positions ih =>
      obtain ⟨hposition, hlater⟩ := List.forall_mem_cons.mp hpositions
      obtain ⟨t₁, t₂, ht₁, ht₂, hfirst⟩ := rewrites_delayCall hruns h hposition delay delay
      obtain ⟨t', ht', hrest⟩ := ih hfirst.revises hlater
      have hboth : (fun p => ((base.delayed delay delay position).onlyAt position p).andThen
            (if p ∈ positions then base.delayed delay delay p else {}))
          = fun p => if p ∈ position :: positions then base.delayed delay delay p else {} := by
        funext p
        by_cases hp : position = p
        · subst hp
          rw [CallUpdate.onlyAt, if_pos rfl, if_pos List.mem_cons_self]
          split
          · exact CallUpdate.andThen_self _
          · exact CallUpdate.andThen_empty _
        · simp only [CallUpdate.onlyAt, if_neg hp, List.mem_cons, Ne.symm hp, false_or]
          exact CallUpdate.empty_andThen _
      refine ⟨t', ?_, hboth ▸ hfirst.trans hrest⟩
      rw [LiveTrips.delayFrom?, ht₁, Option.bind_eq_bind, Option.bind_some, ht₂]
      exact ht'

theorem rewrites_delay? (hp : position < base.numCalls) (arrival departure : Time)
    (propagate : Bool) :
    ∃ t', LiveTrips.delay? arrival departure propagate t position = some t' ∧ base.Rewrites t t'
      (fun p => if position = p then base.delayed arrival departure p
        else if propagate ∧ position < p then base.delayed departure departure p else {}) false := by
  obtain ⟨t₁, t₂, ht₁, ht₂, hfirst⟩ := rewrites_delayCall hruns h hp arrival departure
  rw [LiveTrips.delay?, ht₁, Option.bind_eq_bind, Option.bind_some, ht₂, Option.bind_some]
  cases propagate with
  | false =>
      refine ⟨t₂, rfl, hfirst.congr fun p => ?_⟩
      rw [CallUpdate.onlyAt]
      split
      · next hposition => rw [hposition]
      · simp
  | true =>
      have hnum : t₂.numCalls = base.numCalls := congrArg List.length hfirst.revises.schedule
      have hmem : ∀ p, p ∈ (List.range (t₂.numCalls - (position + 1))).map (position + 1 + ·)
          ↔ position < p ∧ p < base.numCalls := by
        intro p
        simp only [List.mem_map, List.mem_range, hnum]
        exact ⟨by omega, fun hboth => ⟨p - (position + 1), by omega, by omega⟩⟩
      obtain ⟨t', ht', hrest⟩ := rewrites_delayFrom? hruns hfirst.revises departure
        ((List.range (t₂.numCalls - (position + 1))).map (position + 1 + ·))
        fun p hp => ((hmem p).mp hp).2
      refine ⟨t', ht', (hfirst.trans hrest).congr fun p => ?_⟩
      by_cases hposition : position = p
      · subst hposition
        simp [CallUpdate.onlyAt, hmem]
      · simp only [CallUpdate.onlyAt, if_neg hposition, hmem, CallUpdate.empty_andThen, true_and]
        by_cases hlt : p < base.numCalls
        · simp only [hlt, and_true]
        · -- there is nothing to delay beyond the last call
          have hnone : base.delayed departure departure p = {} := by
            have : base.scheduledCall? p = none := by
              rw [scheduledCall?, List.getElem?_eq_none (Nat.not_lt.mp hlt), Option.map_none]
            simp [delayed, scheduledArrival?, scheduledDeparture?, this]
          simp only [hlt, and_false, hnone, ite_self]

theorem rewrites_setTimes? (hp : position < base.numCalls) (arrival departure : Option Time)
    (inaccurate : Bool) :
    ∃ t', LiveTrips.setTimes? arrival departure inaccurate t position = some t'
      ∧ base.Rewrites t t' (CallUpdate.onlyAt
        { arrival := arrival, departure := departure, isInaccurate := inaccurate } position)
        false := by
  obtain ⟨t₁, ht₁, harrival⟩ : ∃ t₁, (match arrival with
      | some time => t.setArrival? position time
      | none => some t) = some t₁
        ∧ base.Rewrites t t₁ (CallUpdate.onlyAt { arrival := arrival } position) false := by
    cases arrival with
    | some time => exact rewrites_changeCall? hruns h hp _ _ fun _ => rfl
    | none => exact ⟨t, rfl, (Rewrites.refl h).congr fun p => (ite_self _).symm⟩
  obtain ⟨t₂, ht₂, hdeparture⟩ : ∃ t₂, (match departure with
      | some time => t₁.setDeparture? position time
      | none => some t₁) = some t₂
        ∧ base.Rewrites t₁ t₂ (CallUpdate.onlyAt { departure := departure } position) false := by
    cases departure with
    | some time => exact rewrites_changeCall? hruns harrival.revises hp _ _ fun _ => rfl
    | none => exact ⟨t₁, rfl, (Rewrites.refl harrival.revises).congr fun p => (ite_self _).symm⟩
  obtain ⟨t', ht', hmark⟩ : ∃ t', (if inaccurate then t₂.markInaccurate? position else pure t₂) = some t'
      ∧ base.Rewrites t₂ t' (CallUpdate.onlyAt { isInaccurate := inaccurate } position) false := by
    cases inaccurate with
    | true => exact rewrites_changeCall? hruns hdeparture.revises hp _ _ fun _ => rfl
    | false => exact ⟨t₂, rfl, (Rewrites.refl hdeparture.revises).congr fun p => (ite_self _).symm⟩
  refine ⟨t', ?_, ((harrival.trans hdeparture).trans hmark).congr fun p => ?_⟩
  · unfold LiveTrips.setTimes?
    cases arrival <;> cases departure <;> simp_all only [Option.bind_eq_bind, Option.bind_some,
      Option.some_inj]
  · rw [CallUpdate.onlyAt_andThen, CallUpdate.onlyAt_andThen]
    simp [CallUpdate.andThen]

end Operations

theorem rewrites_cancel (h : base.Revises t) : base.Rewrites t t.cancel
    (fun _ => { arrival := some unavailable, departure := some unavailable, isCancelled := true })
    true where
  revises := h.cancel
  canceled := rfl
  calls _ := List.getElem?_map ..

end Trip

namespace TripUpdate

variable {base trip : Trip} {u : TripUpdate} {stop : StopRef}

/-- What an update writes to the call at a position of its trip. -/
def atCall (base : Trip) (p : Nat) : TripUpdate → CallUpdate
  | .delay _ stop arrival departure propagate =>
    match base.positionOf? stop with
    | none => {}
    | some position =>
      if position = p then base.delayed arrival departure p
      else if propagate ∧ position < p then base.delayed departure departure p
      else {}
  | .times _ stop arrival departure inaccurate =>
    if base.positionOf? stop = some p then
      { arrival := arrival, departure := departure, isInaccurate := inaccurate }
    else {}
  | .cancelStop _ stop => if base.positionOf? stop = some p then { isCancelled := true } else {}
  | .recorded _ stop => if base.positionOf? stop = some p then { isRecorded := true } else {}
  | .cancelTrip _ =>
    { arrival := some unavailable, departure := some unavailable, isCancelled := true }
  | .revert _ => {}

def isCancelTrip : TripUpdate → Bool
  | .cancelTrip _ => true
  | _ => false

def isRevert : TripUpdate → Bool
  | .revert _ => true
  | _ => false

/-- The version of a trip after an update at a position of it. -/
def atPosition? : TripUpdate → Trip → Nat → Option Trip
  | .delay _ _ arrival departure propagate => LiveTrips.delay? arrival departure propagate
  | .times _ _ arrival departure inaccurate => LiveTrips.setTimes? arrival departure inaccurate
  | .cancelStop _ _ => Trip.cancelStop?
  | .recorded _ _ => Trip.markRecorded?
  | .cancelTrip _ | .revert _ => fun trip _ => some trip

/-- The version of a trip after an update; references are to calls of the published one. -/
def onTrip? (base : Trip) : TripUpdate → Trip → Option Trip
  | .cancelTrip _, trip => some trip.cancel
  | .revert _, _ => some base
  | u, trip => (u.stop?.bind base.positionOf?).bind (u.atPosition? trip)

theorem onTrip?_of_stop (hstop : u.stop? = some stop) :
    u.onTrip? base trip = (base.positionOf? stop).bind (u.atPosition? trip) := by
  cases u <;> simp only [stop?, Option.some_inj, reduceCtorEq] at hstop <;> exact hstop ▸ rfl

/-- An update of a call that is there can be applied, and writes what it says. -/
theorem rewrites_onTrip? (hruns : base.isCanceled = false) (h : base.Revises trip)
    (hu : u.isRevert = false) (hstop : ∀ stop, u.stop? = some stop → base.HasStop stop) :
    ∃ trip', u.onTrip? base trip = some trip'
      ∧ base.Rewrites trip trip' (fun p => u.atCall base p) u.isCancelTrip := by
  have hat : ∀ {stop}, u.stop? = some stop → ∃ position, base.positionOf? stop = some position
      ∧ position < base.numCalls := fun hs => by
    obtain ⟨position, hposition⟩ := Trip.hasStop_iff.mp (hstop _ hs)
    exact ⟨position, hposition, Trip.lt_of_positionOf? hposition⟩
  cases u with
  | delay id stop arrival departure propagate =>
      obtain ⟨position, hposition, hp⟩ := hat rfl
      obtain ⟨trip', htrip', hrewrites⟩ :=
        Trip.rewrites_delay? hruns h hp arrival departure propagate
      simp only [onTrip?, stop?, atCall, Option.bind_some, hposition]
      exact ⟨trip', htrip', hrewrites⟩
  | times id stop arrival departure inaccurate =>
      obtain ⟨position, hposition, hp⟩ := hat rfl
      obtain ⟨trip', htrip', hrewrites⟩ :=
        Trip.rewrites_setTimes? hruns h hp arrival departure inaccurate
      simp only [onTrip?, stop?, atCall, Option.bind_some, hposition, Option.some_inj]
      exact ⟨trip', htrip', hrewrites⟩
  | cancelStop id stop =>
      obtain ⟨position, hposition, hp⟩ := hat rfl
      obtain ⟨trip', htrip', hrewrites⟩ :=
        Trip.rewrites_changeCall? hruns h hp { isCancelled := true } Trip.cancelCall fun _ => rfl
      simp only [onTrip?, stop?, atCall, Option.bind_some, hposition, Option.some_inj]
      exact ⟨trip', htrip', hrewrites⟩
  | recorded id stop =>
      obtain ⟨position, hposition, hp⟩ := hat rfl
      obtain ⟨trip', htrip', hrewrites⟩ :=
        Trip.rewrites_changeCall? hruns h hp { isRecorded := true }
          (fun c => { c with isRecorded := true }) fun _ => rfl
      simp only [onTrip?, stop?, atCall, Option.bind_some, hposition, Option.some_inj]
      exact ⟨trip', htrip', hrewrites⟩
  | cancelTrip id => exact ⟨trip.cancel, rfl, Trip.rewrites_cancel h⟩
  | revert id => simp [isRevert] at hu

end TripUpdate

end JourneyPlanner
