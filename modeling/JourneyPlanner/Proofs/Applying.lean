import JourneyPlanner.Proofs.Built
import JourneyPlanner.Proofs.Updating

/-!
What updates do to the trips in use. An update resolves or it does not, whatever was published
before. If it does, it is applied to its trip and to no other one; a batch goes on without those
that do not, and a transaction is given up for the first of them.
-/

namespace JourneyPlanner

namespace TripUpdate

/-- The trip that an update is of, or why there is none. -/
def target (t : Timetable) (u : TripUpdate) : Except Fault TripKey := do
  let key ← t.resolveTrip u.tripId
  match u.stop? with
  | some stop => (t.resolvePosition key stop).map fun _ => key
  | none => return key

def key? (t : Timetable) (u : TripUpdate) : Option TripKey :=
  (u.target t).toOption

end TripUpdate

namespace Timetable

variable {t : Timetable} {key : TripKey} {base : Trip} {stop : StopRef} {position : Nat}

theorem resolveTrip_eq_ok {tripId : String} :
    t.resolveTrip tripId = .ok key ↔ t.findTrip? tripId = some key := by
  unfold resolveTrip
  cases t.findTrip? tripId <;> simp

/-- Stops are looked up on the published trip. -/
theorem resolvePosition_eq_ok (hbase : t.scheduledTrip? key = some base) :
    t.resolvePosition key stop = .ok position ↔ base.positionOf? stop = some position := by
  unfold resolvePosition
  rw [hbase]
  cases stop <;> dsimp only [Trip.positionOf?] <;> split <;> rename_i hposition <;>
    simp only [hposition, Except.ok.injEq, Option.some_inj, reduceCtorEq]

end Timetable

section Built

variable {b : Builder} {t : Timetable} {u : TripUpdate} {key : TripKey}
  {base trip : Trip} {m m' : LiveTrips} {e : Fault}

/-- An id that is not found is that of no trip. -/
theorem Timetable.findTrip?_eq_none (hbuild : b.build.2 = .ok t) {tripId : String} :
    t.findTrip? tripId = none
      ↔ ∀ key trip, t.scheduledTrip? key = some trip → trip.details.tripId ≠ tripId := by
  constructor
  · rintro hnone key trip htrip rfl
    simp only [scheduledTrip?, Option.bind_eq_bind, Option.bind_eq_some_iff,
      ← Array.getElem?_toList] at htrip
    obtain ⟨p, hp, htrip⟩ := htrip
    refine absurd (Association.find?_isSome_of_mem (v := key) ?_) (by
      rw [← findTrip?, hnone]
      exact Bool.false_ne_true)
    simp only [Builder.tripIndex_build hbuild, Builder.tripIndexOf, List.mem_reverse,
      List.mem_flatMap, List.mem_map]
    exact ⟨(p, key.pattern), List.mk_mem_zipIdx_iff_getElem?.mpr hp, (trip, key.index),
      List.mk_mem_zipIdx_iff_getElem?.mpr htrip, rfl⟩
  · intro hno
    refine Option.eq_none_iff_forall_ne_some.mpr fun key hfind => ?_
    obtain ⟨trip, htrip, hid⟩ := Builder.findTrip?_build hbuild hfind
    exact hno key trip htrip hid

namespace TripUpdate

theorem target_eq_ok : u.target t = .ok key ↔ t.findTrip? u.tripId = some key
    ∧ ∀ stop, u.stop? = some stop → ∃ position, t.resolvePosition key stop = .ok position := by
  simp only [target, Fallible.bind_eq_ok, Timetable.resolveTrip_eq_ok]
  cases u.stop? with
  | none => simp [Fallible.pure_eq_ok]
  | some stop => simp [Fallible.map_eq_ok, and_comm]

/-- Of a trip that is known and has the stop, if the update is of one. -/
theorem key?_eq_some (hbuild : b.build.2 = .ok t) :
    u.key? t = some key ↔ t.findTrip? u.tripId = some key ∧ ∃ base, t.scheduledTrip? key = some base
      ∧ ∀ stop, u.stop? = some stop → base.HasStop stop := by
  rw [key?, Fallible.toOption_eq_some, target_eq_ok]
  refine and_congr_right fun hfind => ?_
  obtain ⟨base, hbase, -⟩ := Builder.findTrip?_build hbuild hfind
  simp only [Timetable.resolvePosition_eq_ok hbase, ← Trip.hasStop_iff, hbase, Option.some_inj,
    exists_eq_left']

/-- Its id is that of no trip, or the trip does not have its stop. -/
def Misses (t : Timetable) (u : TripUpdate) : Prop :=
  (∀ key trip, t.scheduledTrip? key = some trip → trip.details.tripId ≠ u.tripId)
    ∨ ∃ key base stop, t.findTrip? u.tripId = some key ∧ t.scheduledTrip? key = some base
      ∧ u.stop? = some stop ∧ ¬ base.HasStop stop

theorem key?_eq_none (hbuild : b.build.2 = .ok t) : u.key? t = none ↔ u.Misses t := by
  rw [Misses, ← Timetable.findTrip?_eq_none hbuild]
  cases hfind : t.findTrip? u.tripId with
  | none =>
      have hnone : ∀ key, u.key? t ≠ some key := fun key h => by
        simp [key?_eq_some hbuild, hfind] at h
      simpa using Option.eq_none_iff_forall_ne_some.mpr hnone
  | some key =>
      obtain ⟨base, hbase, -⟩ := Builder.findTrip?_build hbuild hfind
      simp only [Option.eq_none_iff_forall_ne_some, ne_eq, key?_eq_some hbuild, hfind]
      simp [hbase]

end TripUpdate

namespace LiveTrips

/-- What an update of a trip leaves of the trips that differ from the timetable. -/
structure Updated (m m' : LiveTrips) (u : TripUpdate) (key : TripKey) (base trip : Trip) : Prop where
  version : u.onTrip? base ((Association.find? key m).getD base) = some trip
  rewrites : u.isRevert = false → base.Rewrites ((Association.find? key m).getD base) trip
    (fun p => u.atCall base p) u.isCancelTrip
  found : Association.find? key m' = if u.isRevert then none else some trip
  others : ∀ key', key ≠ key' → Association.find? key' m' = Association.find? key' m

theorem Updated.eq_of_revert (h : m.Updated m' u key base trip) (hrevert : u.isRevert = true) :
    trip = base := by
  have hversion := h.version
  cases u <;> simp [TripUpdate.isRevert] at hrevert
  exact (Option.some.inj hversion).symm

theorem Updated.trip?_eq (h : m.Updated m' u key base trip) (hbase : t.scheduledTrip? key = some base) :
    ({ trips := m' } : Snapshot).trip? t key = some trip := by
  rw [Snapshot.trip?, Snapshot.updatedTrip?, h.found]
  cases hrevert : u.isRevert with
  | false => rfl
  | true => simpa [h.eq_of_revert hrevert] using hbase

theorem current_eq (hbase : t.scheduledTrip? key = some base) :
    m.current t key = .ok ((Association.find? key m).getD base) := by
  unfold current
  rw [hbase]
  cases Association.find? key m <;> rfl

theorem trip?_eq (hbase : t.scheduledTrip? key = some base) :
    ({ trips := m } : Snapshot).trip? t key = some ((Association.find? key m).getD base) := by
  rw [Snapshot.trip?, hbase]
  exact Option.or_some ..

/-- Updates at a stop differ in what they change there. -/
theorem apply_of_stop {stop : StopRef} (hstop : u.stop? = some stop) :
    m.apply t u = m.changeAt t u.tripId stop u.atPosition? := by
  cases u <;> simp only [TripUpdate.stop?, Option.some_inj, reduceCtorEq] at hstop <;>
    exact hstop ▸ rfl

theorem apply_of_error (h : u.target t = .error e) : m.apply t u = .error e := by
  unfold TripUpdate.target at h
  cases hfind : t.resolveTrip u.tripId with
  | error e' =>
      obtain rfl : e' = e := by simpa [hfind, bind, Except.bind] using h
      cases u <;> simp only [TripUpdate.tripId] at hfind <;>
        simp [apply, changeAt, hfind, bind, Except.bind]
  | ok key =>
      cases hstop : u.stop? with
      | none => simp [hfind, hstop, bind, Except.bind, pure, Except.pure] at h
      | some stop =>
          cases hposition : t.resolvePosition key stop with
          | ok position => simp [hfind, hstop, hposition, bind, Except.bind, Except.map] at h
          | error e' =>
              obtain rfl : e' = e := by simpa [hfind, hstop, hposition, bind, Except.bind, Except.map] using h
              rw [apply_of_stop hstop]
              simp [changeAt, hfind, hposition, bind, Except.bind]

/-- What is reported of an update that leaves a trip; of taking everything back nothing else
than that it was done. -/
def reported (u : TripUpdate) (trip : Trip) : UpdateOutcome :=
  if u.isRevert then .applied else (outcome trip).1

/-- An update that resolves is applied to its trip and to no other one. -/
theorem apply_of_key? (hb : b.Assembled) (hbuild : b.build.2 = .ok t) (hm : m.Revise t)
    (h : u.key? t = some key) :
    ∃ base trip change, t.scheduledTrip? key = some base ∧ m.apply t u = .ok change
      ∧ m.Updated change.trips u key base trip ∧ change.outcome = reported u trip
      ∧ change.trips.Revise t := by
  obtain ⟨hfind, base, hbase, hstops⟩ := (TripUpdate.key?_eq_some hbuild).mp h
  obtain ⟨p, -, hpublished⟩ := Builder.published_of_scheduledTrip? hb hbuild hbase
  have hruns : base.isCanceled = false := by rw [Trip.isCanceled, hpublished.state]; rfl
  have hcurrent := current_eq (m := m) hbase
  have hrevises : base.Revises ((Association.find? key m).getD base) := by
    obtain ⟨base', hbase', hrevises⟩ := revises_current hm
      (fun _ _ => Builder.live_of_scheduledTrip? hb hbuild) hcurrent
    exact Option.some.inj (hbase'.symm.trans hbase) ▸ hrevises
  have hresolve := Timetable.resolveTrip_eq_ok.mpr hfind
  cases hrevert : u.isRevert with
  | true =>
      obtain ⟨id, rfl⟩ : ∃ id, u = .revert id := by
        cases u <;> simp [TripUpdate.isRevert] at hrevert
        exact ⟨_, rfl⟩
      have happly : m.apply t (.revert id) = .ok ⟨Association.erase key m, .applied, []⟩ :=
        Fallible.bind_eq_ok.mpr ⟨key, hresolve, rfl⟩
      refine ⟨base, base, _, hbase, happly, ⟨rfl, by simp [hrevert], ?_, fun key' hkey => ?_⟩,
        rfl, revise_erase hm key⟩
      · rw [Association.find?_erase, if_pos rfl]
        rfl
      · rw [Association.find?_erase, if_neg hkey]
  | false =>
      obtain ⟨trip', htrip', hrewrites⟩ := TripUpdate.rewrites_onTrip? hruns hrevises hrevert hstops
      have happly : m.apply t u
          = .ok ⟨Association.put key trip' m, (outcome trip').1, (outcome trip').2⟩ := by
        cases hstop : u.stop? with
        | some stop =>
            obtain ⟨position, hposition⟩ := Trip.hasStop_iff.mp (hstops stop hstop)
            rw [TripUpdate.onTrip?_of_stop hstop, hposition, Option.bind_some] at htrip'
            refine apply_of_stop hstop ▸ Fallible.bind_eq_ok.mpr ⟨key, hresolve, ?_⟩
            refine Fallible.bind_eq_ok.mpr
              ⟨position, (Timetable.resolvePosition_eq_ok hbase).mpr hposition, ?_⟩
            exact Fallible.bind_eq_ok.mpr ⟨_, hcurrent, by rw [htrip']; rfl⟩
        | none =>
            obtain ⟨id, rfl⟩ : ∃ id, u = .cancelTrip id := by
              cases u <;> simp [TripUpdate.stop?, TripUpdate.isRevert] at hstop hrevert
              exact ⟨_, rfl⟩
            obtain rfl := Option.some.inj htrip'
            exact Fallible.bind_eq_ok.mpr ⟨key, hresolve,
              Fallible.bind_eq_ok.mpr ⟨_, hcurrent, rfl⟩⟩
      refine ⟨base, trip', _, hbase, happly,
        ⟨htrip', fun _ => hrewrites, ?_, fun key' hkey => ?_⟩, by simp [reported, hrevert],
        revise_put hm hbase hrewrites.revises⟩
      · rw [Association.find?_put, if_pos rfl, hrevert]
        rfl
      · rw [Association.find?_put, if_neg hkey]

end LiveTrips

/-- A list of updates resolves if all of them do. -/
theorem TripUpdate.mapM_target_succeeds {us : List TripUpdate} : (∃ keys, us.mapM (TripUpdate.target t) = .ok keys)
    ↔ us.all (fun u => (u.key? t).isSome) = true := by
  simp only [Fallible.mapM_succeeds_iff, List.all_eq_true, Option.isSome_iff_exists,
    TripUpdate.key?, Fallible.toOption_eq_some]

namespace Feed

variable {us : List TripUpdate} {f : Feed}

/-- What one update of a batch does and how it is reported. -/
structure Steps (t : Timetable) (m m' : LiveTrips) (u : TripUpdate) (outcome : UpdateOutcome) :
    Prop where
  revise : m'.Revise t
  rejected : u.key? t = none → m' = m ∧ outcome = .rejected
  updated : ∀ key, u.key? t = some key → ∃ base trip, t.scheduledTrip? key = some base
    ∧ m.Updated m' u key base trip ∧ outcome = LiveTrips.reported u trip

section Built

variable (hb : b.Assembled) (hbuild : b.build.2 = .ok t)

include hb hbuild

theorem applyEach_cons (hm : m.Revise t) (u : TripUpdate) :
    ∃ m' outcome, Steps t m m' u outcome ∧ ∀ us, (applyEach t m (u :: us)).1 = (applyEach t m' us).1
      ∧ (applyEach t m (u :: us)).2.1 = outcome :: (applyEach t m' us).2.1 := by
  cases hkey : u.target t with
  | error e =>
      have hnone : u.key? t = none := by rw [TripUpdate.key?, hkey]; rfl
      refine ⟨m, .rejected, ⟨hm, fun _ => ⟨rfl, rfl⟩, by simp [hnone]⟩, fun us => ?_⟩
      rw [applyEach, LiveTrips.apply_of_error hkey]
      exact ⟨rfl, rfl⟩
  | ok key =>
      have hsome : u.key? t = some key := Fallible.toOption_eq_some.mpr hkey
      obtain ⟨base, trip, change, hbase, happly, hupdated, houtcome, hrevise⟩ :=
        LiveTrips.apply_of_key? hb hbuild hm hsome
      refine ⟨change.trips, change.outcome, ⟨hrevise, by simp [hsome], fun key' hkey' => ?_⟩,
        fun us => ?_⟩
      · obtain rfl := Option.some.inj (hsome.symm.trans hkey')
        exact ⟨base, trip, hbase, hupdated, houtcome⟩
      · rw [applyEach, happly]
        exact ⟨rfl, rfl⟩

theorem revise_applyEach (hm : m.Revise t) (us : List TripUpdate) :
    LiveTrips.Revise t (applyEach t m us).1 := by
  induction us generalizing m with
  | nil => exact hm
  | cons u us ih =>
      obtain ⟨m', outcome, hstep, hrest⟩ := applyEach_cons hb hbuild hm u
      rw [(hrest us).1]
      exact ih hstep.revise

/-- Updates that do not resolve are reported as rejected, the others by what became of
their trip. -/
theorem outcome_applyEach (hm : m.Revise t) {i : Nat} (hu : us[i]? = some u) :
    (u.key? t = none ∧ (applyEach t m us).2.1[i]? = some .rejected)
      ∨ ∃ key trip, u.key? t = some key
        ∧ ({ trips := (applyEach t m (us.take (i + 1))).1 } : Snapshot).trip? t key = some trip
        ∧ (u.isRevert = true → t.scheduledTrip? key = some trip)
        ∧ (applyEach t m us).2.1[i]? = some (LiveTrips.reported u trip) := by
  induction us generalizing m i with
  | nil => simp at hu
  | cons u' us ih =>
      obtain ⟨m', outcome, hstep, hrest⟩ := applyEach_cons hb hbuild hm u'
      rw [(hrest us).2, List.take_succ_cons, (hrest _).1]
      cases i with
      | succ i => exact ih hstep.revise hu
      | zero =>
          obtain rfl := Option.some.inj hu
          cases hkey : u'.key? t with
          | none => exact .inl ⟨rfl, by rw [(hstep.rejected hkey).2]; rfl⟩
          | some key =>
              obtain ⟨base, trip, hbase, hupdated, rfl⟩ := hstep.updated key hkey
              exact .inr ⟨key, trip, rfl, hupdated.trip?_eq hbase,
                fun hrevert => hupdated.eq_of_revert hrevert ▸ hbase, rfl⟩

/-- A transaction fails with the fault of the first update that does not resolve, or else
does what the batch does. -/
theorem applyAll_eq (hm : m.Revise t) (us : List TripUpdate) :
    (applyAll t m us).2 = (us.mapM (TripUpdate.target t)).map fun _ =>
      ((applyEach t m us).1, (applyEach t m us).2.1) := by
  induction us generalizing m with
  | nil => rfl
  | cons u us ih =>
      cases hkey : u.target t with
      | error e => simp [applyAll, LiveTrips.apply_of_error hkey, hkey, Except.map, bind, Except.bind]
      | ok key =>
          obtain ⟨base, trip, change, -, happly, -, -, hrevise⟩ :=
            LiveTrips.apply_of_key? hb hbuild hm (Fallible.toOption_eq_some.mpr hkey)
          have hrest := ih hrevise
          cases hall : applyAll t change.trips us with
          | mk notices result =>
              obtain rfl : result = _ := by simpa [hall] using hrest
              cases hmap : us.mapM (TripUpdate.target t) <;>
                simp [applyAll, happly, hall, applyEach, hkey, hmap, Except.map, bind, Except.bind,
                  pure, Except.pure]

theorem transact_eq (ht : f.timetable = t) (hm : f.snapshot.trips.Revise t) (us : List TripUpdate) :
    (f.transact us).2 = (us.mapM (TripUpdate.target t)).map fun _ =>
      ((f.applyUpdates us).1, (f.applyUpdates us).2.1) := by
  subst ht
  have hall := applyAll_eq hb hbuild hm us
  unfold transact
  cases hresult : applyAll f.timetable f.snapshot.trips us with
  | mk notices result =>
      obtain rfl : result = _ := by simpa [hresult] using hall
      cases us.mapM (TripUpdate.target f.timetable) <;> rfl

/-- A feed keeps to its timetable. -/
theorem Running.revise (h : Running t f) : f.timetable = t ∧ f.snapshot.trips.Revise t := by
  have hbatch : ∀ {f : Feed}, f.timetable = t ∧ f.snapshot.trips.Revise t → ∀ us,
      (f.applyUpdates us).1.timetable = t ∧ (f.applyUpdates us).1.snapshot.trips.Revise t := by
    rintro f ⟨rfl, hm⟩ us
    exact ⟨rfl, revise_applyEach hb hbuild hm us⟩
  have hnone : LiveTrips.Revise t [] := fun _ _ hfind => by simp [Association.find?] at hfind
  induction h with
  | start => exact ⟨rfl, hnone⟩
  | applyUpdates h us ih => exact hbatch ih us
  | transact h hf ih =>
      obtain ⟨-, -, heq⟩ := Fallible.map_eq_ok.mp
        ((Feed.transact_eq hb hbuild ih.1 ih.2 _).symm.trans (congrArg Prod.snd hf))
      obtain rfl := congrArg Prod.fst heq
      exact hbatch ih _
  | clear h ih => exact ⟨ih.1, hnone⟩

theorem Running.transact_eq (h : Running t f) (us : List TripUpdate) :
    (f.transact us).2 = (us.mapM (TripUpdate.target t)).map fun _ =>
      ((f.applyUpdates us).1, (f.applyUpdates us).2.1) := by
  obtain ⟨ht, hm⟩ := h.revise hb hbuild
  exact Feed.transact_eq hb hbuild ht hm us

end Built

end Feed

end Built

end JourneyPlanner
