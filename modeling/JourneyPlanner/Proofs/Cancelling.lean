import JourneyPlanner.Proofs.Answering
import Mathlib.Data.Option.Defs
import Mathlib.Data.List.Nodup

/-!
Cancelling trips and calls in real time. Whatever became of a trip before, cancellations
leave the same trip, cut by what they cancel of it, and each of them says as much as a ban.
-/

namespace JourneyPlanner

namespace BannedTrip

/-- A ban without positions is of the whole trip. -/
def coversTrip (b : BannedTrip) (tripId : String) : Bool :=
  b.tripId == tripId && b.positions.isEmpty

def coversCall (b : BannedTrip) (tripId : String) (position : Nat) : Bool :=
  b.tripId == tripId && b.positions.contains position

end BannedTrip

/-- What a cancellation bans, if what it names is there. -/
def TripUpdate.ban? (t : Timetable) : TripUpdate → Option BannedTrip
  | .cancelTrip tripId => (t.findTrip? tripId).map fun _ => ⟨tripId, []⟩
  | .cancelStop tripId stop => do
    let key ← t.findTrip? tripId
    let position ← (t.resolvePosition key stop).toOption
    return ⟨tripId, [position]⟩
  | _ => none

namespace Timetable

/-- No two trips have one id. -/
def HasDistinctIds (t : Timetable) : Prop :=
  (t.patterns.toList.flatMap fun p => p.trips.map (·.details.tripId)).Nodup

instance (t : Timetable) : Decidable t.HasDistinctIds :=
  inferInstanceAs (Decidable (List.Nodup _))

/-- Of an element that comes once the row and its place in the row are known. -/
theorem index_eq_of_nodup_flatMap {α β : Type} {f : α → List β} {xs : List α}
    (h : (xs.flatMap f).Nodup) {i i' j j' : Nat} {x x' : α} {y : β} (hx : xs[i]? = some x)
    (hx' : xs[i']? = some x') (hy : (f x)[j]? = some y) (hy' : (f x')[j']? = some y) :
    i = i' ∧ j = j' := by
  induction xs generalizing i i' with
  | nil => simp at hx
  | cons head xs ih =>
      rw [List.flatMap_cons, List.nodup_append] at h
      obtain ⟨hhead, hrest, hapart⟩ := h
      have hlater : ∀ {i j : Nat} {x : α}, xs[i]? = some x → (f x)[j]? = some y →
          y ∈ xs.flatMap f := fun hx hy =>
        List.mem_flatMap.mpr ⟨_, List.mem_of_getElem? hx, List.mem_of_getElem? hy⟩
      cases i with
      | zero =>
          obtain rfl : head = x := by simpa using hx
          cases i' with
          | zero =>
              obtain rfl : head = x' := by simpa using hx'
              have hj := (List.getElem?_eq_some_iff.mp hy).1
              exact ⟨rfl, (List.getElem?_inj hj hhead).mp (hy.trans hy'.symm)⟩
          | succ i' => exact absurd rfl (hapart y (List.mem_of_getElem? hy) y (hlater hx' hy'))
      | succ i =>
          cases i' with
          | zero =>
              obtain rfl : head = x' := by simpa using hx'
              exact absurd rfl (hapart y (List.mem_of_getElem? hy') y (hlater hx hy))
          | succ i' =>
              obtain ⟨rfl, rfl⟩ := ih hrest hx hx'
              exact ⟨rfl, rfl⟩

theorem HasDistinctIds.key_eq {t : Timetable} (h : t.HasDistinctIds) {key key' : TripKey}
    {trip trip' : Trip} (hkey : t.scheduledTrip? key = some trip)
    (hkey' : t.scheduledTrip? key' = some trip')
    (hid : trip.details.tripId = trip'.details.tripId) : key = key' := by
  simp only [scheduledTrip?, Option.bind_eq_bind, Option.bind_eq_some_iff,
    ← Array.getElem?_toList] at hkey hkey'
  obtain ⟨p, hp, htrip⟩ := hkey
  obtain ⟨p', hp', htrip'⟩ := hkey'
  have hplace := index_eq_of_nodup_flatMap h hp hp' (by rw [List.getElem?_map, htrip]; rfl)
    (by rw [List.getElem?_map, htrip', Option.map_some, ← hid])
  obtain ⟨pattern, index⟩ := key
  obtain ⟨pattern', index'⟩ := key'
  exact TripKey.mk.injEq .. ▸ hplace

end Timetable

namespace Trip

def cutCall (cut : Bool) (c : Call) : Call :=
  if cut then cancelCall c else c

theorem cutCall_cutCall (a b : Bool) (c : Call) : cutCall b (cutCall a c) = cutCall (a || b) c := by
  cases a <;> cases b <;> rfl

/-- The same trip without what some bans cover; of a trip that does not run nothing else
is said. -/
structure IsCutBy (bans : List BannedTrip) (t t' : Trip) : Prop where
  details : t'.details = t.details
  headsigns : t'.headsigns = t.headsigns
  canceled : t'.isCanceled = (t.isCanceled || bans.any fun b => b.coversTrip t.details.tripId)
  calls : t'.isCanceled = false → ∀ position, t'.calls[position]? =
    t.calls[position]?.map (cutCall (bans.any fun b => b.coversCall t.details.tripId position))

namespace IsCutBy

variable {bans bans' : List BannedTrip} {t t' t'' : Trip}

theorem refl (t : Trip) : t.IsCutBy [] t where
  details := rfl
  headsigns := rfl
  canceled := (Bool.or_false _).symm
  calls _ position := by
    simp only [List.any_nil]
    exact (Option.map_id' ..).symm

theorem of_other {b : BannedTrip} (h : b.tripId ≠ t.details.tripId) : t.IsCutBy [b] t where
  details := rfl
  headsigns := rfl
  canceled := by simp [BannedTrip.coversTrip, h]
  calls _ position := by
    simp only [List.any_cons, List.any_nil, BannedTrip.coversCall, beq_false_of_ne h, Bool.false_and,
      Bool.or_false]
    exact (Option.map_id' ..).symm

theorem trans (h : t.IsCutBy bans t') (h' : t'.IsCutBy bans' t'') : t.IsCutBy (bans ++ bans') t'' where
  details := h'.details.trans h.details
  headsigns := h'.headsigns.trans h.headsigns
  canceled := by rw [h'.canceled, h.canceled, h.details, List.any_append, Bool.or_assoc]
  calls hruns position := by
    have hruns' : t'.isCanceled = false := by
      rw [h'.canceled, Bool.or_eq_false_iff] at hruns
      exact hruns.1
    rw [h'.calls hruns, h.calls hruns', Option.map_map, h.details, List.any_append]
    exact congrArg (Option.map · _) (funext fun c => cutCall_cutCall ..)

theorem rel_trans {trip trip' trip'' : Option Trip} (h : Option.Rel (IsCutBy bans) trip trip')
    (h' : Option.Rel (IsCutBy bans') trip' trip'') :
    Option.Rel (IsCutBy (bans ++ bans')) trip trip'' := by
  cases h with
  | none => cases h' with | none => exact .none
  | some hcut => cases h' with | some hcut' => exact .some (hcut.trans hcut')

theorem times (h : t.IsCutBy bans t') (hruns : t'.isCanceled = false) :
    t'.calls.map Call.times = t.calls.map Call.times := by
  refine List.ext_getElem? fun position => ?_
  rw [List.getElem?_map, List.getElem?_map, h.calls hruns, Option.map_map]
  refine congrArg (Option.map · _) (funext fun c => ?_)
  unfold cutCall Function.comp
  split <;> rfl

end IsCutBy

end Trip

namespace TripUpdate

variable {t : Timetable} {key : TripKey} {u : TripUpdate} {ban : BannedTrip} {base trip trip' : Trip}

/-- A cancellation bans something of the trip that it is of. -/
theorem key?_of_ban? (h : u.ban? t = some ban) :
    ∃ key, u.key? t = some key ∧ ban.tripId = u.tripId ∧ u.isRevert = false := by
  have hresolves : ∀ {key}, u.target t = .ok key → u.key? t = some key := fun htarget =>
    Fallible.toOption_eq_some.mpr htarget
  cases u with
  | cancelTrip tripId =>
      obtain ⟨key, hfind, rfl⟩ := Option.map_eq_some_iff.mp h
      exact ⟨key, hresolves (target_eq_ok.mpr ⟨hfind, by simp [stop?]⟩), rfl, rfl⟩
  | cancelStop tripId stop =>
      simp only [ban?, Option.bind_eq_bind, Option.bind_eq_some_iff, Option.pure_def,
        Option.some_inj, Fallible.toOption_eq_some] at h
      obtain ⟨key, hfind, position, hposition, rfl⟩ := h
      exact ⟨key, hresolves (target_eq_ok.mpr ⟨hfind, by simp [stop?, hposition]⟩), rfl, rfl⟩
  | delay => simp [ban?] at h
  | times => simp [ban?] at h
  | recorded => simp [ban?] at h
  | revert => simp [ban?] at h

/-- What a cancellation writes cuts what it bans. -/
theorem isCutBy_of_ban? (h : u.ban? t = some ban) (hfind : t.findTrip? u.tripId = some key)
    (hbase : t.scheduledTrip? key = some base) (hid : trip.details.tripId = ban.tripId)
    (hrevises : base.Revises trip)
    (hrewrites : base.Rewrites trip trip' (fun p => u.atCall base p) u.isCancelTrip) :
    trip.IsCutBy [ban] trip' := by
  have hdetails : trip'.details = trip.details :=
    hrewrites.revises.details.trans hrevises.details.symm
  have hheadsigns : trip'.headsigns = trip.headsigns :=
    hrewrites.revises.headsigns.trans hrevises.headsigns.symm
  have hcanceled := hrewrites.canceled
  cases u with
  | cancelTrip tripId =>
      obtain ⟨-, -, rfl⟩ := Option.map_eq_some_iff.mp h
      refine ⟨hdetails, hheadsigns, ?_, fun hruns => ?_⟩
      · simp [hcanceled, isCancelTrip, BannedTrip.coversTrip, hid]
      · simp [hcanceled, isCancelTrip] at hruns
  | cancelStop tripId stop =>
      simp only [ban?, Option.bind_eq_bind, Option.bind_eq_some_iff, Option.pure_def,
        Option.some_inj, Fallible.toOption_eq_some] at h
      obtain ⟨key', hfind', position, hposition, rfl⟩ := h
      obtain rfl := Option.some.inj (hfind.symm.trans hfind')
      rw [Timetable.resolvePosition_eq_ok hbase] at hposition
      refine ⟨hdetails, hheadsigns, ?_, fun _ p => ?_⟩
      · simp [hcanceled, isCancelTrip, BannedTrip.coversTrip]
      · rw [hrewrites.calls p]
        refine congrArg (Option.map · _) (funext fun c => ?_)
        by_cases hp : position = p
        · simp [atCall, hposition, BannedTrip.coversCall, hid, Trip.cutCall, hp]
          rfl
        · simp [atCall, hposition, BannedTrip.coversCall, Trip.cutCall, hp, Ne.symm hp]
  | delay => simp [ban?] at h
  | times => simp [ban?] at h
  | recorded => simp [ban?] at h
  | revert => simp [ban?] at h

end TripUpdate

namespace Router

variable {x : Router} {m : LiveTrips} {key : TripKey} {trip : Trip} {tripId : String}

theorem Deployed.isUsable_iff (hx : x.Deployed) (hfits : x.timetable.TripsFit)
    (h : x.snapshot.trip? x.timetable key = some trip) :
    trip.isUsable = true ↔ trip.isCanceled = false ∧ Chronological trip.calls := by
  obtain ⟨base, hbase, hrevises⟩ := LiveTrips.revises_of_trip? hx.revise (fun _ _ => hx.live) h
  obtain ⟨p, -, hpublished⟩ := hx.scheduled hbase
  exact hrevises.isUsable_iff fun _ => hpublished.chronological (hfits.fits hbase)

/-- A cancellation that resolves is applied, and cuts what it bans. Trips of other ids stay
as they are. -/
theorem apply_of_ban? (hx : x.Deployed) (hids : x.timetable.HasDistinctIds)
    (hm : m.Revise x.timetable) {u : TripUpdate} {b : BannedTrip}
    (hu : u.ban? x.timetable = some b) :
    ∃ change, m.apply x.timetable u = .ok change ∧ change.trips.Revise x.timetable
      ∧ ∀ key, Option.Rel (Trip.IsCutBy [b]) (({ trips := m } : Snapshot).trip? x.timetable key)
        (({ trips := change.trips } : Snapshot).trip? x.timetable key) := by
  obtain ⟨builder, hb, hbuild⟩ := hx.timetable
  obtain ⟨key, hkey, hid, hrevert⟩ := TripUpdate.key?_of_ban? hu
  obtain ⟨base, trip', change, hbase, happly, hupdated, -, hrevise⟩ :=
    LiveTrips.apply_of_key? hb hbuild hm hkey
  have hfind := ((TripUpdate.key?_eq_some hbuild).mp hkey).1
  obtain ⟨base', hbase', hidBase⟩ := Builder.findTrip?_build hbuild hfind
  obtain rfl := Option.some.inj (hbase.symm.trans hbase')
  refine ⟨change, happly, hrevise, fun key' => ?_⟩
  by_cases hsame : key = key'
  · subst hsame
    have htrip := LiveTrips.trip?_eq (m := m) hbase
    obtain ⟨base', hbase', hrevises⟩ :=
      LiveTrips.revises_of_trip? hm (fun _ _ => hx.live) htrip
    obtain rfl := Option.some.inj (hbase.symm.trans hbase')
    rw [htrip, hupdated.trip?_eq hbase]
    exact .some (TripUpdate.isCutBy_of_ban? hu hfind hbase (by rw [hrevises.details, hidBase, hid])
      hrevises (hupdated.rewrites hrevert))
  · have hother : ({ trips := change.trips } : Snapshot).trip? x.timetable key'
        = ({ trips := m } : Snapshot).trip? x.timetable key' := by
      rw [Snapshot.trip?, Snapshot.updatedTrip?, hupdated.others key' hsame]
      rfl
    rw [hother]
    cases htrip : ({ trips := m } : Snapshot).trip? x.timetable key' with
    | none => exact .none
    | some other =>
        obtain ⟨base', hbase', hrevises⟩ :=
          LiveTrips.revises_of_trip? hm (fun _ _ => hx.live) htrip
        refine .some (.of_other fun hsameId => hsame ?_)
        exact hids.key_eq hbase hbase' (by rw [hidBase, ← hid, hsameId, hrevises.details])

/-- A list of cancellations that all resolve cuts what they ban together. -/
theorem cut_applyEach (hx : x.Deployed) (hids : x.timetable.HasDistinctIds)
    (hm : m.Revise x.timetable) {us : List TripUpdate} {bans : List BannedTrip}
    (hbans : us.mapM (TripUpdate.ban? x.timetable) = some bans) (key : TripKey) :
    Option.Rel (Trip.IsCutBy bans) (({ trips := m } : Snapshot).trip? x.timetable key)
      (({ trips := (Feed.applyEach x.timetable m us).1 } : Snapshot).trip? x.timetable key) := by
  induction us generalizing m bans with
  | nil =>
      obtain rfl : [] = bans := by simpa using hbans
      simp only [Feed.applyEach]
      cases ({ trips := m } : Snapshot).trip? x.timetable key with
      | none => exact .none
      | some trip => exact .some (.refl trip)
  | cons u us ih =>
      simp only [List.mapM_cons, Option.bind_eq_bind, Option.bind_eq_some_iff, Option.pure_def,
        Option.some_inj] at hbans
      obtain ⟨b, hb, rest, hrest, rfl⟩ := hbans
      obtain ⟨change, happly, hrevise, hfirst⟩ := apply_of_ban? hx hids hm hb
      have hlater := ih hrevise hrest
      simp only [Feed.applyEach, happly]
      exact Trip.IsCutBy.rel_trans (hfirst key) hlater

theorem cut_afterUpdates (hx : x.Deployed) (hids : x.timetable.HasDistinctIds)
    {us : List TripUpdate} {bans : List BannedTrip}
    (hbans : us.mapM (TripUpdate.ban? x.timetable) = some bans) (key : TripKey) :
    Option.Rel (Trip.IsCutBy bans) (x.snapshot.trip? x.timetable key)
      ((x.afterUpdates us).snapshot.trip? x.timetable key) :=
  cut_applyEach hx hids hx.revise hbans key

end Router

end JourneyPlanner
