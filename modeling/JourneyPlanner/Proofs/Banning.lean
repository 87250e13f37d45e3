import JourneyPlanner.Proofs.BanLists
import JourneyPlanner.Proofs.Thinning

/-!
Cancelling and banning. A search after some cancellations answers like one before them
that is asked not to use what they cancel: the trips they leave are those not banned as a
whole, and at a cancelled call nobody may get on or off either way.
-/

namespace JourneyPlanner

/-- The request that does not want to use more trips and calls. -/
def Request.banning (r : Request) (bans : List BannedTrip) : Request :=
  { r with bannedTrips := r.bannedTrips ++ bans }

/-- A trip that none of some bans covers as a whole. -/
def DayTrip.isLeftBy (bans : List BannedTrip) (d : DayTrip) : Bool :=
  !bans.any fun b => b.coversTrip d.trip.details.tripId

theorem Request.permits_banning {r : Request} {bans : List BannedTrip} {t : Trip}
    {position stop : Nat} : (r.banning bans).Permits t position stop ↔
      r.Permits t position stop ∧ (bans.any fun b => b.coversTrip t.details.tripId) = false
        ∧ (bans.any fun b => b.coversCall t.details.tripId position) = false := by
  have hcovers : ((bans.any fun b => b.coversTrip t.details.tripId) = false
      ∧ (bans.any fun b => b.coversCall t.details.tripId position) = false) ↔
        ∀ b ∈ bans, b.tripId = t.details.tripId → b.positions ≠ [] ∧ position ∉ b.positions := by
    simp only [List.any_eq_false, BannedTrip.coversTrip, BannedTrip.coversCall, Bool.and_eq_true,
      beq_iff_eq, List.isEmpty_iff, List.contains_iff_mem, not_and, ← forall_and]
  rw [hcovers]
  constructor
  · intro h
    refine ⟨⟨h.called, h.stop, fun b hb => ?_, h.wheelchair, h.bikes⟩, fun b hb => ?_⟩
    · exact h.bans b (List.mem_append_left _ hb)
    · exact h.bans b (List.mem_append_right _ hb)
  · rintro ⟨h, hbans⟩
    refine ⟨h.called, h.stop, fun b hb => ?_, h.wheelchair, h.bikes⟩
    exact (List.mem_append.mp hb).elim (h.bans b) (hbans b)

namespace Trip.IsCutBy

variable {bans : List BannedTrip} {t t' : Trip} {r : Request} {position stop : Nat} {c : Call}

theorem isCancelledAt (h : t.IsCutBy bans t') (hruns : t'.isCanceled = false)
    (hc : t.calls[position]? = some c) : t'.isCancelledAt position =
      (t.isCancelledAt position || bans.any fun b => b.coversCall t.details.tripId position) := by
  simp only [Trip.isCancelledAt, call?_eq, h.calls hruns, hc, Option.map_some, Option.any_some]
  unfold cutCall
  split
  case isTrue hcut => simp [cancelCall, hcut]
  case isFalse hcut => simp [hcut]

/-- The filter with the bans treats a trip as the one without them treats what
cancellations leave of it. -/
theorem accepts_banning (h : t.IsCutBy bans t') (hruns : t'.isCanceled = false)
    (hc : t.calls[position]? = some c) :
    (TripFilter.ofRequest (r.banning bans)).accepts t position stop
      = (TripFilter.ofRequest r).accepts t' position stop := by
  have hcalled := h.isCancelledAt hruns hc
  obtain ⟨hbefore, hwhole⟩ : t.isCanceled = false
      ∧ (bans.any fun b => b.coversTrip t.details.tripId) = false := by
    rw [← Bool.or_eq_false_iff, ← h.canceled, hruns]
  rw [Bool.eq_iff_iff, TripFilter.accepts_ofRequest, TripFilter.accepts_ofRequest,
    Request.permits_banning]
  simp only [hbefore, hruns, hwhole, true_and]
  constructor
  · rintro ⟨hpermits, hcall⟩
    refine ⟨?_, hpermits.stop, h.details ▸ hpermits.bans, h.details ▸ hpermits.wheelchair,
      h.details ▸ hpermits.bikes⟩
    rw [hcalled, hpermits.called, hcall, Bool.or_false]
  · intro hpermits
    have hcalled' := hcalled.symm.trans hpermits.called
    rw [Bool.or_eq_false_iff] at hcalled'
    exact ⟨⟨hcalled'.1, hpermits.stop, h.details ▸ hpermits.bans, h.details ▸ hpermits.wheelchair,
      h.details ▸ hpermits.bikes⟩, hcalled'.2⟩

/-- Where a trip is accepted it has not been cut. -/
theorem call_of_accepts (h : t.IsCutBy bans t') (hruns : t'.isCanceled = false)
    (hc : t.calls[position]? = some c)
    (haccepts : (TripFilter.ofRequest r).accepts t' position stop = true) :
    cutCall (bans.any fun b => b.coversCall t.details.tripId position) c = c := by
  have hcalled := (TripFilter.accepts_ofRequest.mp haccepts).2.called
  rw [h.isCancelledAt hruns hc, Bool.or_eq_false_iff] at hcalled
  rw [hcalled.2]
  rfl

end Trip.IsCutBy

namespace DayTrip

theorem agrees_cut {bans : List BannedTrip} {t t' : Trip} (r : Request) (h : t.IsCutBy bans t')
    (hruns : t'.isCanceled = false) (date : Date) (offset : Time) :
    (ofTrip t' date offset).Agrees 0 (TripFilter.ofRequest r) (TripFilter.ofRequest (r.banning bans))
      (ofTrip t date offset) := by
  refine ⟨rfl, h.details.symm, fun position => ?_, fun {position c'} hc' => ?_⟩
  · simp only [ofTrip, Trip.headsign?, h.headsigns, h.details]
  · simp only [ofTrip, List.getElem?_toArray, List.getElem?_map, h.calls hruns, Option.map_map,
      Option.map_eq_some_iff, Function.comp_apply] at hc' ⊢
    obtain ⟨c, hc, rfl⟩ := hc'
    have htimes : (Trip.cutCall (bans.any fun b => b.coversCall t.details.tripId position) c).arrival
        = c.arrival ∧ (Trip.cutCall (bans.any fun b => b.coversCall t.details.tripId position)
          c).departure = c.departure := by
      unfold Trip.cutCall
      split <;> exact ⟨rfl, rfl⟩
    refine ⟨_, ⟨c, hc, rfl⟩, ?_, ?_, fun stop => ?_, fun stop => ?_⟩
    · simp [Call.later, htimes]
    · simp [Call.later, htimes]
    all_goals
      rw [h.accepts_banning hruns hc]
      cases haccepts : (TripFilter.ofRequest r).accepts t' position stop with
      | false => simp only [Bool.and_false]
      | true => rw [h.call_of_accepts hruns hc haccepts]

end DayTrip

/-- Results of one list, some of them left out on either side. -/
theorem forall₂_filter_filterMap {ι α β : Type} {f : ι → Option α} {g : ι → Option β}
    {use : α → Bool} {use' : β → Bool} {R : α → β → Prop} {is : List ι}
    (h : ∀ i ∈ is, Option.Rel (fun a b => use a = use' b ∧ (use a = true → R a b)) (f i) (g i)) :
    List.Forall₂ R ((is.filterMap f).filter use) ((is.filterMap g).filter use') := by
  induction is with
  | nil => exact .nil
  | cons i is ih =>
      have hrest := ih fun j hj => h j (List.mem_cons_of_mem _ hj)
      have hfirst := h i (List.mem_cons_self ..)
      generalize hf : f i = a? at hfirst
      generalize hg : g i = b? at hfirst
      cases hfirst with
      | none => rwa [List.filterMap_cons_none hf, List.filterMap_cons_none hg]
      | @some a b hab =>
          rw [List.filterMap_cons_some hf, List.filterMap_cons_some hg]
          cases huse : use a with
          | true =>
              rw [List.filter_cons_of_pos huse, List.filter_cons_of_pos (hab.1 ▸ huse)]
              exact .cons (hab.2 huse) hrest
          | false =>
              rw [List.filter_cons_of_neg (by simp [huse]),
                List.filter_cons_of_neg (by simp [← hab.1, huse])]
              exact hrest

namespace Router

variable {x : Router} {us : List TripUpdate} {bans : List BannedTrip} {r : Request}
  {watch : Option Watch} {supervisor : Supervisor}

/-- After the cancellations a search may use what they leave of the trips before. -/
theorem isUsable_cut (hx : x.Deployed) (hfits : x.timetable.TripsFit) {key : TripKey} {t t' : Trip}
    (ht : x.snapshot.trip? x.timetable key = some t)
    (ht' : (x.afterUpdates us).snapshot.trip? x.timetable key = some t') (hcut : t.IsCutBy bans t') :
    t'.isUsable = (!(bans.any fun b => b.coversTrip t.details.tripId) && t.isUsable) := by
  rw [Bool.eq_iff_iff, (hx.afterUpdates us).isUsable_iff hfits ht', Bool.and_eq_true,
    hx.isUsable_iff hfits ht,
    Bool.not_eq_true', hcut.canceled, Bool.or_eq_false_iff]
  have htimes : t.isCanceled = false →
      (bans.any fun b => b.coversTrip t.details.tripId) = false →
        t'.calls.map Call.times = t.calls.map Call.times := by
    intro hruns hwhole
    exact hcut.times (by rw [hcut.canceled, hruns, hwhole]; rfl)
  constructor
  · rintro ⟨⟨hruns, hwhole⟩, hchronological⟩
    exact ⟨hwhole, hruns, hchronological.of_times (htimes hruns hwhole).symm⟩
  · rintro ⟨hwhole, hruns, hchronological⟩
    exact ⟨⟨hruns, hwhole⟩, hchronological.of_times (htimes hruns hwhole)⟩

theorem thins_ofDate_banning (hx : x.Deployed) (hfits : x.timetable.TripsFit)
    (hids : x.timetable.HasDistinctIds)
    (hbans : us.mapM (TripUpdate.ban? x.timetable) = some bans) (pattern : Nat)
    (searchDate date : Date) :
    List.Forall₂ (DayTrip.Agrees 0 (TripFilter.ofRequest r) (TripFilter.ofRequest (r.banning bans)))
      (DayTrips.ofDate x.timetable (x.afterUpdates us).snapshot pattern searchDate date).trips.toList
      ((DayTrips.ofDate x.timetable x.snapshot pattern searchDate date).trips.toList.filter
        (DayTrip.isLeftBy bans)) := by
  simp only [DayTrips.ofDate, List.filter_map, List.filter_filter]
  rw [List.forall₂_map_left_iff, List.forall₂_map_right_iff]
  refine forall₂_filter_filterMap fun index hindex => ?_
  have hrel := cut_afterUpdates hx hids hbans ⟨pattern, index⟩
  generalize ht : x.snapshot.trip? x.timetable ⟨pattern, index⟩ = t? at hrel
  generalize ht' : (x.afterUpdates us).snapshot.trip? x.timetable ⟨pattern, index⟩ = t'? at hrel
  cases hrel with
  | none => exact .none
  | some hcut =>
      refine .some ⟨isUsable_cut hx hfits ht ht' hcut, fun husable => ?_⟩
      exact DayTrip.agrees_cut r hcut (((hx.afterUpdates us).isUsable_iff hfits ht').mp husable).1 _ _

theorem not_accepts_of_dropped {d : DayTrip} (h : d.isLeftBy bans = false) (position stop : Nat) :
    (TripFilter.ofRequest (r.banning bans)).accepts d.trip position stop = false := by
  rw [DayTrip.isLeftBy, Bool.not_eq_false'] at h
  rw [← Bool.not_eq_true, TripFilter.accepts_ofRequest, Request.permits_banning, h]
  simp

theorem search_banning (hx : x.Deployed) (hfits : x.timetable.TripsFit)
    (hids : x.timetable.HasDistinctIds)
    (hbans : us.mapM (TripUpdate.ban? x.timetable) = some bans) :
    (∃ e, (x.afterUpdates us).search r watch supervisor = .error e
        ∧ x.search (r.banning bans) watch supervisor = .error e)
      ∨ ∃ s s', (x.afterUpdates us).search r watch supervisor = .ok s
        ∧ x.search (r.banning bans) watch supervisor = .ok s'
        ∧ s.Thins 0 (DayTrip.isLeftBy bans) s' := by
  have haccept : (r.banning bans).accept x.settings x.timetable
      = r.accept x.settings x.timetable := rfl
  have hdates : datesFor x.settings (r.banning bans) = datesFor x.settings r := rfl
  cases h : (x.afterUpdates us).search r watch supervisor with
  | error e =>
      have hrejected := search_eq_error_iff.mp h
      refine Or.inl ⟨e, rfl, search_eq_error_iff.mpr ?_⟩
      rw [haccept, hdates]
      exact hrejected
  | ok s =>
      obtain ⟨haccepted, dates, hok, rfl⟩ := search_eq_ok_iff.mp h
      refine Or.inr ⟨_, _, rfl, search_eq_ok_iff.mpr ⟨haccepted, dates, hok, rfl⟩, ?_⟩
      refine ⟨⟨_, _, _, rfl⟩, fun _ => rfl, ?_, fun {i v} hv => ?_⟩
      · simp only [Int.add_zero, List.map_id']
        rfl
      · rw [viewList_ofRequest, Option.map_eq_some_iff] at hv
        obtain ⟨p, hp, rfl⟩ := hv
        have hp : x.timetable.patterns[i]? = some p := hp
        refine ⟨_, by rw [viewList_ofRequest, hp]; rfl, PatternView.thins_ofDates ?_ ?_⟩
        · exact fun date _ => thins_ofDate_banning hx hfits hids hbans i r.date date
        · exact fun date _ d _ hdropped => not_accepts_of_dropped hdropped

end Router

namespace Request

/-- Bans of positions that any table has do not make a request too large. -/
theorem bannedBeyond?_append (whole : List String) (banned : List BannedTrip)
    {bans : List BannedTrip}
    (hfits : ∀ b ∈ bans, ∀ position ∈ b.positions, Index.hasEntry position = true) :
    bannedBeyond? whole (banned ++ bans) = bannedBeyond? whole banned := by
  have hnone : ∀ whole, bannedBeyond? whole bans = none := fun whole =>
    bannedBeyond?_eq_none_iff.mpr fun before b after h =>
      Or.inr (hfits b (h ▸ List.mem_append_right before (List.mem_cons_self ..)))
  induction banned generalizing whole with
  | nil => exact hnone whole
  | cons b banned ih => simp only [List.cons_append, bannedBeyond?, ih]

end Request

namespace ThreeLines

/-- The line that departs last is late. -/
def late : Router :=
  router.afterUpdates [.delay "y" (.position 0) 60 60 true]

/-- Of the other lines one does not run, and the other one does not call at the stop between. -/
def cancellations : List TripUpdate :=
  [.cancelTrip "d", .cancelStop "x" (.position 1)]

end ThreeLines

namespace Overrun

def router : Router where
  timetable := timetable

theorem router_deployed : router.Deployed :=
  Router.deployed_of_assembled builder_assembled _ {}

/-- From the first stop of the late repetition to the second one. -/
def request : Request where
  date := day
  time := 0
  searchWindow := some 60
  access := [⟨0, 0⟩]
  egress := [⟨1, 0⟩]

end Overrun

end JourneyPlanner
