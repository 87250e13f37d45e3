import JourneyPlanner.Proofs.Applying
import Mathlib.Data.List.DropRight

/-!
The history of a feed. Whatever was published, in batches, in transactions or by clearing
the feed, each trip is what its updates make of the scheduled one, one after the other, since
it was last reverted or the feed last cleared. Nothing else makes a difference to it.
-/

namespace JourneyPlanner

/-- What can be done to a feed. -/
inductive FeedAction where
  | batch (us : List TripUpdate)
  | transaction (us : List TripUpdate)
  | clear

/-- What was published. -/
inductive FeedEntry where
  | update (u : TripUpdate)
  | cleared

namespace FeedAction

/-- A transaction with an update that does not resolve is not published. -/
def publishes (t : Timetable) : FeedAction → Bool
  | .batch _ | .clear => true
  | .transaction us => us.all fun u => (u.key? t).isSome

/-- Updates that do not resolve are not published. -/
def entries (t : Timetable) : FeedAction → List FeedEntry
  | .batch us => (us.filter fun u => (u.key? t).isSome).map .update
  | .transaction us =>
    if us.all fun u => (u.key? t).isSome then us.map .update else []
  | .clear => [.cleared]

end FeedAction

namespace FeedEntry

/-- What was published earlier does not matter for the trip any more. -/
def resets (t : Timetable) (key : TripKey) : FeedEntry → Bool
  | .update u => u.isRevert && decide (u.key? t = some key)
  | .cleared => true

def updateOf? (t : Timetable) (key : TripKey) : FeedEntry → Option TripUpdate
  | .update u => if u.key? t = some key then some u else none
  | .cleared => none

end FeedEntry

/-- The updates of a trip since it was last reverted or the feed last cleared. -/
def standing (t : Timetable) (key : TripKey) (entries : List FeedEntry) : List TripUpdate :=
  (entries.rtakeWhile fun e => !e.resets t key).filterMap (FeedEntry.updateOf? t key)

section History

variable {b : Builder} {t : Timetable} {key : TripKey} {m m' : LiveTrips} {u : TripUpdate}
  {us : List TripUpdate} {entries : List FeedEntry} {base trip : Trip}

theorem standing_concat (e : FeedEntry) :
    standing t key (entries ++ [e]) =
      if e.resets t key then [] else standing t key entries ++ (e.updateOf? t key).toList := by
  rw [standing, List.rtakeWhile_concat]
  cases e.resets t key with
  | true => rfl
  | false =>
      simp only [Bool.not_false, if_true, List.filterMap_append, standing, Bool.false_eq_true, if_false]
      cases h : e.updateOf? t key <;> simp [h]

theorem mem_standing (h : u ∈ standing t key entries) : u.key? t = some key ∧ u.isRevert = false := by
  obtain ⟨e, he, hu⟩ := List.mem_filterMap.mp h
  have hreset := List.mem_rtakeWhile_imp he
  cases e with
  | cleared => simp [FeedEntry.updateOf?] at hu
  | update u' =>
      simp only [FeedEntry.updateOf?, Option.ite_none_right_eq_some, Option.some_inj] at hu
      obtain ⟨hkey, rfl⟩ := hu
      simpa [FeedEntry.resets, hkey] using hreset

/-- The versions of all trips are those that some history leaves. -/
structure LiveTrips.Replays (t : Timetable) (m : LiveTrips) (entries : List FeedEntry) : Prop where
  untouched : ∀ key, standing t key entries = [] → Association.find? key m = none
  touched : ∀ key, standing t key entries ≠ [] → ∃ base trip, t.scheduledTrip? key = some base
    ∧ (standing t key entries).foldlM (fun trip u => u.onTrip? base trip) base = some trip
    ∧ Association.find? key m = some trip

namespace LiveTrips.Replays

/-- A trip is what its updates make of the scheduled one. -/
theorem replayed (h : m.Replays t entries) (hbase : t.scheduledTrip? key = some base) :
    (standing t key entries).foldlM (fun trip u => u.onTrip? base trip) base
      = some ((Association.find? key m).getD base) := by
  by_cases hnone : standing t key entries = []
  · rw [hnone, h.untouched key hnone]
    rfl
  · obtain ⟨base', trip, hbase', htrip, hfind⟩ := h.touched key hnone
    obtain rfl := Option.some.inj (hbase.symm.trans hbase')
    rw [htrip, hfind]
    rfl

theorem update (h : m.Replays t entries) (hkey : u.key? t = some key)
    (hbase : t.scheduledTrip? key = some base) (hu : m.Updated m' u key base trip) :
    m'.Replays t (entries ++ [.update u]) := by
  have hother : ∀ key', key ≠ key' →
      standing t key' (entries ++ [.update u]) = standing t key' entries := fun key' hne => by
    simp [standing_concat, FeedEntry.resets, FeedEntry.updateOf?, hkey, hne]
  have hown : standing t key (entries ++ [.update u])
      = if u.isRevert then [] else standing t key entries ++ [u] := by
    simp [standing_concat, FeedEntry.resets, FeedEntry.updateOf?, hkey]
  refine ⟨fun key' hnone => ?_, fun key' hsome => ?_⟩
  · by_cases hsame : key = key'
    · subst hsame
      rw [hown] at hnone
      rw [hu.found]
      cases hrevert : u.isRevert with
      | true => rfl
      | false => simp [hrevert] at hnone
    · rw [hother key' hsame] at hnone
      rw [hu.others key' hsame]
      exact h.untouched key' hnone
  · by_cases hsame : key = key'
    · subst hsame
      rw [hown] at hsome ⊢
      cases hrevert : u.isRevert with
      | true => simp [hrevert] at hsome
      | false =>
          refine ⟨base, trip, hbase, ?_, by rw [hu.found, hrevert]; rfl⟩
          rw [if_neg Bool.false_ne_true, List.foldlM_append, h.replayed hbase]
          simpa using hu.version
    · rw [hother key' hsame] at hsome ⊢
      rw [hu.others key' hsame]
      exact h.touched key' hsome

theorem cleared : Replays t [] (entries ++ [.cleared]) where
  untouched _ _ := rfl
  touched _ h := absurd (standing_concat .cleared) h

end LiveTrips.Replays

namespace Feed

section Built

variable (hb : b.Assembled) (hbuild : b.build.2 = .ok t)

include hb hbuild

/-- Updates of a batch that resolve are published, and no others. -/
theorem replays_applyEach (hm : m.Revise t) (h : m.Replays t entries) (us : List TripUpdate) :
    LiveTrips.Replays t (applyEach t m us).1
      (entries ++ (us.filter fun u => (u.key? t).isSome).map .update) := by
  induction us generalizing m entries with
  | nil => simpa [applyEach] using h
  | cons u us ih =>
      obtain ⟨m', outcome, hstep, hrest⟩ := applyEach_cons hb hbuild hm u
      rw [(hrest us).1]
      cases hkey : u.key? t with
      | none =>
          obtain ⟨rfl, -⟩ := hstep.rejected hkey
          simpa [hkey] using ih hm h
      | some key =>
          obtain ⟨base, trip, hbase, hupdated, -⟩ := hstep.updated key hkey
          simpa [hkey] using ih hstep.revise (h.update hkey hbase hupdated)

/-- Rejected updates change nothing. -/
theorem applyEach_filter (hm : m.Revise t) (us : List TripUpdate) :
    (applyEach t m (us.filter fun u => (u.key? t).isSome)).1 = (applyEach t m us).1 := by
  induction us generalizing m with
  | nil => rfl
  | cons u us ih =>
      obtain ⟨m', outcome, hstep, hrest⟩ := applyEach_cons hb hbuild hm u
      rw [(hrest us).1]
      cases hkey : u.key? t with
      | none =>
          obtain ⟨rfl, -⟩ := hstep.rejected hkey
          simpa [hkey] using ih hm
      | some key => simpa [hkey, (hrest _).1] using ih hstep.revise

end Built

/-- The feed as it is left, be it because nothing was published. -/
def perform (f : Feed) : FeedAction → Feed
  | .batch us => (f.applyUpdates us).1
  | .transaction us =>
    match (f.transact us).2 with
    | .ok (f', _) => f'
    | .error _ => f
  | .clear => f.clear

def after (t : Timetable) (actions : List FeedAction) : Feed :=
  actions.foldl perform { timetable := t }

/-- What a feed does with some updates. -/
structure Takes (t : Timetable) (f : Feed) (us : List TripUpdate) : Prop where
  reported : (f.applyUpdates us).2.1.length = us.length
  rejected : ∀ (i : Nat) (u : TripUpdate), us[i]? = some u →
    ((f.applyUpdates us).2.1[i]? = some .rejected ↔ u.Misses t)
  unchanged : (f.applyUpdates us).1 = (f.applyUpdates (us.filter fun u => (u.key? t).isSome)).1
  transacted : (f.transact us).2 = (us.mapM (TripUpdate.target t)).map fun _ =>
    ((f.applyUpdates us).1, (f.applyUpdates us).2.1)
  failing : (∃ e, (f.transact us).2 = .error e) ↔ ∃ u ∈ us, u.Misses t
  kept : (∃ u ∈ us, u.Misses t) → f.perform (.transaction us) = f

theorem length_applyEach (m : LiveTrips) (us : List TripUpdate) :
    (applyEach t m us).2.1.length = us.length := by
  induction us generalizing m with
  | nil => rfl
  | cons u us ih =>
      unfold applyEach
      cases m.apply t u <;> simp [ih]

variable {f : Feed}

theorem Running.perform (h : Running t f) (a : FeedAction) : Running t (f.perform a) := by
  cases a with
  | batch us => exact h.applyUpdates us
  | transaction us =>
      cases hresult : (f.transact us).2 with
      | error e => simpa [Feed.perform, hresult] using h
      | ok result =>
          have htransact : f.transact us = ((f.transact us).1, .ok (result.1, result.2)) :=
            Prod.ext rfl hresult
          simpa [Feed.perform, hresult] using h.transact htransact
  | clear => exact h.clear

theorem running_after (t : Timetable) (actions : List FeedAction) : Running t (after t actions) :=
  List.foldlRecOn actions _ .start fun _ h a _ => h.perform a

section Built

variable (hb : b.Assembled) (hbuild : b.build.2 = .ok t)

include hb hbuild

theorem Running.perform_transaction (h : Running t f) (us : List TripUpdate) :
    f.perform (.transaction us)
      = if us.all fun u => (u.key? t).isSome then f.perform (.batch us) else f := by
  have hsucceeds : (∃ keys, us.mapM (TripUpdate.target t) = .ok keys) ↔ _ :=
    TripUpdate.mapM_target_succeeds
  simp only [Feed.perform, h.transact_eq hb hbuild]
  cases hmap : us.mapM (TripUpdate.target t) with
  | ok keys => rw [if_pos (hsucceeds.mp ⟨keys, hmap⟩)]; rfl
  | error e =>
      rw [if_neg fun hall => by simpa [hmap] using hsucceeds.mpr hall]
      rfl

/-- Whatever an action publishes is added to the history. -/
theorem Running.replays_perform (h : Running t f) (hreplays : f.snapshot.trips.Replays t entries)
    (a : FeedAction) : (f.perform a).snapshot.trips.Replays t (entries ++ a.entries t) := by
  have hbatch : ∀ us, (f.perform (.batch us)).snapshot.trips.Replays t
      (entries ++ (us.filter fun u => (u.key? t).isSome).map .update) := fun us => by
    obtain ⟨rfl, hm⟩ := h.revise hb hbuild
    exact replays_applyEach hb hbuild hm hreplays us
  cases a with
  | batch us => exact hbatch us
  | clear => exact .cleared
  | transaction us =>
      rw [h.perform_transaction hb hbuild, FeedAction.entries]
      split
      case isTrue hall => simpa [List.filter_eq_self.mpr (List.all_eq_true.mp hall)] using hbatch us
      case isFalse => simpa using hreplays

theorem Running.version_perform (h : Running t f) (a : FeedAction) :
    (f.perform a).snapshot.version = f.snapshot.version + if a.publishes t then 1 else 0 := by
  cases a with
  | batch us => rfl
  | clear => rfl
  | transaction us =>
      rw [h.perform_transaction hb hbuild, FeedAction.publishes]
      split <;> rfl

theorem replays_after (actions : List FeedAction) :
    (after t actions).snapshot.trips.Replays t (actions.flatMap (FeedAction.entries t))
      ∧ (after t actions).snapshot.version = actions.countP (FeedAction.publishes t) := by
  induction actions using List.reverseRecOn with
  | nil => exact ⟨⟨fun _ _ => rfl, fun _ h => absurd rfl h⟩, rfl⟩
  | append_singleton actions a ih =>
      have hrunning := running_after t actions
      have hafter : after t (actions ++ [a]) = (after t actions).perform a := by simp [after]
      rw [hafter, List.flatMap_append, List.flatMap_singleton, List.countP_append,
        hrunning.version_perform hb hbuild, ih.2]
      exact ⟨hrunning.replays_perform hb hbuild ih.1 a, by simp [List.countP_singleton]⟩

theorem Running.takes (h : Running t f) (us : List TripUpdate) : f.Takes t us := by
  obtain ⟨rfl, hm⟩ := h.revise hb hbuild
  have hmisses : (∃ u ∈ us, u.Misses f.timetable)
      ↔ ¬ us.all (fun u => (u.key? f.timetable).isSome) = true := by
    simp [← TripUpdate.key?_eq_none hbuild]
  refine ⟨length_applyEach .., fun i u hu => ?_, ?_, h.transact_eq hb hbuild us, ?_, fun hany => ?_⟩
  · rw [← TripUpdate.key?_eq_none hbuild]
    change (applyEach f.timetable f.snapshot.trips us).2.1[i]? = some .rejected ↔ _
    rcases outcome_applyEach hb hbuild hm hu with ⟨hnone, hrejected⟩ | ⟨key, trip, hkey, -, -, houtcome⟩
    · simp only [hrejected, hnone]
    · have happlied : LiveTrips.reported u trip ≠ .rejected := by
        unfold LiveTrips.reported LiveTrips.outcome
        split
        · simp
        · split
          · simp
          · split <;> simp
      simp only [houtcome, hkey, Option.some_inj, happlied, reduceCtorEq]
  · exact congrArg f.publish (applyEach_filter hb hbuild hm us).symm
  · rw [h.transact_eq hb hbuild, hmisses, ← TripUpdate.mapM_target_succeeds]
    cases us.mapM (TripUpdate.target f.timetable) <;> simp [Except.map]
  · rw [h.perform_transaction hb hbuild, if_neg (hmisses.mp hany)]

/-- After whatever was done to a feed, each trip is as its standing updates make it, and the
version counts what was published. Updates that miss their trip fail, and nothing else does. -/
theorem history_after (actions : List FeedAction) :
    (after t actions).snapshot.trips.Replays t (actions.flatMap (FeedAction.entries t))
      ∧ (after t actions).snapshot.version = actions.countP (FeedAction.publishes t)
      ∧ (∀ u, (∃ e, (after t actions).snapshot.trips.apply t u = .error e) ↔ u.Misses t)
      ∧ ∀ us, (after t actions).Takes t us := by
  have hrunning := running_after t actions
  obtain ⟨hreplays, hversion⟩ := replays_after hb hbuild actions
  refine ⟨hreplays, hversion, fun u => ?_, hrunning.takes hb hbuild⟩
  rw [← TripUpdate.key?_eq_none hbuild]
  cases htarget : u.target t with
  | error e =>
      have hnone : u.key? t = none := by rw [TripUpdate.key?, htarget]; rfl
      simp [LiveTrips.apply_of_error htarget, hnone]
  | ok key =>
      have hsome : u.key? t = some key := Fallible.toOption_eq_some.mpr htarget
      obtain ⟨-, -, change, -, happly, -⟩ :=
        LiveTrips.apply_of_key? hb hbuild (hrunning.revise hb hbuild).2 hsome
      simp [happly, hsome]

end Built

end Feed

end History

namespace LocalLine

def day : Date := ⟨19850, by decide⟩

/-- A trip that stays a minute at the second of three stops. -/
def trip (tripId : String) (start : Time) : TripRecord where
  tripId := tripId
  routeId := "l"
  serviceId := "W"
  stopTimes :=
    [⟨"A", start, start, some 10, .scheduled, .scheduled, true, none⟩,
      ⟨"B", start + 300, start + 360, some 20, .scheduled, .scheduled, true, none⟩,
      ⟨"C", start + 600, start + 600, some 30, .scheduled, .scheduled, true, none⟩]

def builder : Builder :=
  .ofTrips ["A", "B", "C"] "W" [day] [trip "p" 600, trip "q" 1200]

theorem builder_assembled : builder.Assembled :=
  Builder.assembled_ofTrips ..

def timetable : Timetable :=
  builder.timetable (by decide +kernel)

theorem builder_build : builder.build.2 = .ok timetable :=
  builder.build_eq_timetable _

/-- The first trip. -/
def first : Trip :=
  (timetable.scheduledTrip? ⟨0, 0⟩).get (by decide +kernel)

theorem scheduledTrip?_first : timetable.scheduledTrip? ⟨0, 0⟩ = some first :=
  (Option.some_get _).symm

/-- What is said of the first trip after the feed was cleared. -/
def news : List TripUpdate :=
  [.delay "p" (.sequence 20) 60 90 true, .times "p" (.position 1) none (some 1200) true]

/-- A feed that also tells of another trip, of one that nobody knows and of a stop that
is not there. -/
def actions : List FeedAction :=
  [.transaction [.cancelTrip "q", .recorded "q" (.sequence 30)], .clear,
    .batch ([.cancelStop "p" (.position 3), .cancelTrip "r"] ++ news.take 1),
    .transaction [.cancelTrip "p", .recorded "q" (.sequence 15)], .transaction (news.drop 1)]

theorem standing_actions :
    standing timetable ⟨0, 0⟩ (actions.flatMap (FeedAction.entries timetable)) = news := by
  decide +kernel

end LocalLine

theorem Feed.localLine_history :
    (after LocalLine.timetable LocalLine.actions).snapshot.version = 4
      ∧ (after LocalLine.timetable LocalLine.actions).snapshot.updatedTrip? ⟨0, 1⟩ = none
      ∧ ∃ base trip, LocalLine.timetable.scheduledTrip? ⟨0, 0⟩ = some base
        ∧ LocalLine.news.foldlM (fun trip u => u.onTrip? base trip) base = some trip
        ∧ (after LocalLine.timetable LocalLine.actions).snapshot.updatedTrip? ⟨0, 0⟩ = some trip := by
  obtain ⟨hreplays, hversion, -⟩ :=
    history_after LocalLine.builder_assembled LocalLine.builder_build LocalLine.actions
  refine ⟨hversion.trans (by decide +kernel), hreplays.untouched _ (by decide +kernel), ?_⟩
  rw [← LocalLine.standing_actions]
  exact hreplays.touched _ (by simp [LocalLine.standing_actions, LocalLine.news])

end JourneyPlanner
