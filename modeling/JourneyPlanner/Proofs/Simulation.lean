import JourneyPlanner.Proofs.ChartSound
import JourneyPlanner.Proofs.Shown
import Mathlib.Data.List.Forall2

/-!
Each step of a round does to the chart of a search what charts say it does.
-/

namespace JourneyPlanner
namespace Search

variable {s : Search} {p p' : Progress}

section Destination

/-- Adding a journey adds it to the chart, and no arrival is touched. -/
theorem addJourney_shows (hp : s.Tidy p) {d : DestinationArrival}
    (hd : ∃ a, p.table.arrivals[d.previous]? = some a) :
    s.Tidy (s.addJourney p d) ∧ (s.addJourney p d).table = p.table
      ∧ s.shown (s.addJourney p d) = (s.shown p).addJourney s (p.table.journeyOf d) := by
  have hfind : ((s.shown p).journeys.find? fun j => Chart.beats s j (p.table.journeyOf d)) =
      (p.destination.find? fun e =>
        DestinationArrival.dominates s.heading s.policy e d).map p.table.journeyOf := by
    simp only [shown, List.find?_map]
    rfl
  unfold addJourney Chart.addJourney Pareto.add Pareto.rival?
  rw [hfind]
  cases p.destination.find? fun e => DestinationArrival.dominates s.heading s.policy e d with
  | some rival =>
      obtain ⟨ht, hpd⟩ := reportPath_frame s p .reject d (some rival) .dominated
      refine ⟨hp.of_eq ht hpd, ht, ?_⟩
      rw [shown_reportPath]
      exact Chart.note_nil ..
  | none =>
      let front := p.destination.filter
        (fun e => !DestinationArrival.dominates s.heading s.policy d e) ++ [d]
      let next := { p with destination := front }
      obtain ⟨ht, hpd⟩ := reportPath_frame s next .accept d none .accepted
      obtain ⟨ht', hpd', hshown⟩ := reportPathDrops_frame s
        (p.destination.filter fun e => DestinationArrival.dominates s.heading s.policy d e)
        (s.reportPath next .accept d none .accepted) d
      have hnext : s.Tidy next := by
        refine ⟨hp.table, fun e he => ?_⟩
        rw [List.mem_append, List.mem_filter, List.mem_singleton] at he
        rcases he with ⟨he, -⟩ | rfl
        · exact hp.destination e he
        · exact hd
      refine ⟨hnext.of_eq (ht'.trans ht) (hpd'.trans hpd), ht'.trans ht, ?_⟩
      refine hshown.trans ((shown_reportPath ..).trans ?_)
      refine congrArg₂ _ ?_ rfl
      refine Chart.mk.injEq .. |>.mpr ⟨rfl, rfl, ?_, rfl, rfl⟩
      simp only [next, front, shown, List.map_append, List.map_singleton, List.filter_map]
      rfl

/-- Going on from an accepted arrival to the destination. -/
theorem reachDestination_shows (hp : s.Tidy p) {id : Nat} {a : StopArrival}
    (ha : p.table.arrivals[id]? = some a) :
    s.Tidy (s.reachDestination p id a) ∧ (s.reachDestination p id a).table = p.table
      ∧ s.shown (s.reachDestination p id a) = (s.shown p).reach s (p.table.wayOf a) := by
  unfold reachDestination Chart.reach
  change _ ∧ _ ∧ _ = (s.targetDurations a.stop).foldl _ _
  induction s.targetDurations a.stop generalizing p with
  | nil => exact ⟨hp, rfl, rfl⟩
  | cons duration durations ih =>
      obtain ⟨htidy, htable, hshown⟩ :=
        addJourney_shows hp (d := s.journeyFrom id a duration) ⟨a, ha⟩
      obtain ⟨htidy', htable', hshown'⟩ := ih htidy (htable ▸ ha)
      refine ⟨htidy', htable'.trans htable, ?_⟩
      rw [List.foldl_cons, hshown', htable, hshown]
      have hjourney : p.table.journeyOf (s.journeyFrom id a duration)
          = Chart.journeyAlong s (p.table.wayOf a) duration := by
        simp only [StopTable.journeyOf, Chart.journeyAlong]
        rw [show (s.journeyFrom id a duration).previous = id from rfl,
          StopTable.arrivalsTo_eq hp.table.linked ha]
        rfl
      rw [hjourney]
      rfl

end Destination

section Scan

/-- What a caught trip is in the chart. -/
def Aboard (t : StopTable) (b : Boarding) (e : Way × Boarding) : Prop :=
  ∃ a, t.arrivals[b.previous]? = some a ∧ e = (t.wayOf a, { b with previous := 0 })

theorem Aboard.of_extends {t t' : StopTable} (h : t.IsLinked) (ht : t.Extends t') {b : Boarding}
    {e : Way × Boarding} (hb : Aboard t b e) : Aboard t' b e := by
  obtain ⟨a, ha, rfl⟩ := hb
  exact ⟨a, ht.arrivals ha, by rw [StopTable.wayOf_of_extends h ht (h.supports ha)]⟩

theorem tripAt_eq_ok {v : PatternView} {index : Nat} {trip : DayTrip}
    (h : v.tripAt index = .ok trip) : PatternView.tripIn? v.days index = some trip := by
  unfold PatternView.tripAt at h
  cases hi : PatternView.tripIn? v.days index with
  | none => simp [hi] at h
  | some t => simpa [hi] using h

theorem call_eq_ok {trip : DayTrip} {position : Nat} {call : Call}
    (h : trip.call position = .ok call) : trip.calls[position]? = some call := by
  unfold DayTrip.call at h
  cases hc : trip.calls[position]? with
  | none => simp [hc] at h
  | some c => simpa [hc] using h

/-- Leaving a caught trip. -/
theorem alight_shows (hp : s.Tidy p) {v : PatternView} {round position stop : Nat} {b : Boarding}
    {e : Way × Boarding} (hb : Aboard p.table b e)
    (h : s.alight v round position stop p b = .ok p') :
    s.Tidy p' ∧ p.table.Extends p'.table
      ∧ s.shown p' = (s.shown p).alight s v round position stop e := by
  obtain ⟨a, ha, rfl⟩ := hb
  unfold alight at h
  simp only [Fallible.bind_eq_ok] at h
  obtain ⟨trip, htrip, call, hcall, h⟩ := h
  unfold Chart.alight left?
  simp only [tripAt_eq_ok htrip, call_eq_ok hcall, Option.bind_eq_bind, Option.bind_some]
  split at h
  case isFalse hno =>
    simp only [Fallible.pure_eq_ok] at h
    subst h
    have hleft : ∀ {boardCall : Option Call} {f : Call → StopArrival},
        (boardCall.bind fun c => if ((s.heading.alightRule call).isRoutable
          && s.filter.accepts trip.trip position stop) = true then some (f c) else none) = none := by
      intro boardCall f
      cases boardCall <;> simp [hno]
    rw [hleft]
    exact ⟨hp, .refl _, rfl⟩
  case isTrue hyes =>
    simp only [Fallible.bind_eq_ok] at h
    obtain ⟨boardCall, hboard, ⟨p₁, result⟩, hadd, h⟩ := h
    simp only [call_eq_ok hboard, Option.bind_some, hyes, if_true]
    have hsupports : p.table.Supports
        (s.alightArrival v round position stop p.table.iteration b boardCall call) :=
      StopTable.supports_of_previous rfl ha
    have hway : p.table.wayOf
        (s.alightArrival v round position stop p.table.iteration b boardCall call) =
          (p.table.wayOf a).extend (s.alightArrival v round position stop p.table.iteration
            { b with previous := 0 } boardCall call) :=
      StopTable.wayOf_eq_extend hp.table.linked ha rfl
    obtain ⟨htidy, hext, ⟨rfl, hshown, hfate⟩ | ⟨id, rfl, hshown, hfate, hid⟩⟩ :=
      addArrival_shows hp hsupports rfl hadd
    · simp only [Fallible.pure_eq_ok] at h
      subst h
      refine ⟨htidy, hext, ?_⟩
      rw [hshown, hway]
      exact (Chart.settle_of_not_accepted hfate).symm
    · simp only [Fallible.pure_eq_ok] at h
      subst h
      obtain ⟨htidy', htable, hshown'⟩ := reachDestination_shows htidy hid
      refine ⟨htidy', htable ▸ hext, ?_⟩
      rw [hshown', hshown, StopTable.wayOf_of_extends hp.table.linked hext hsupports, hway]
      exact (Chart.settle_of_accepted hfate).symm

/-- Leaving all caught trips, which are known from an earlier table. -/
theorem alightAll_shows (hp : s.Tidy p) {t : StopTable} (ht : t.IsLinked)
    (hext : t.Extends p.table) {v : PatternView} {round position stop : Nat}
    {onboard : List Boarding} {caught : List (Way × Boarding)}
    (hb : List.Forall₂ (Aboard t) onboard caught)
    (h : onboard.foldlM (s.alight v round position stop) p = .ok p') :
    s.Tidy p' ∧ t.Extends p'.table
      ∧ s.shown p' = caught.foldl (fun c b => c.alight s v round position stop b) (s.shown p) := by
  induction hb generalizing p with
  | nil =>
      rw [List.foldlM_nil, Fallible.pure_eq_ok] at h
      subst h
      exact ⟨hp, hext, rfl⟩
  | cons hbe _ ih =>
      obtain ⟨p₁, h₁, h⟩ := Fallible.foldlM_cons_eq_ok.mp h
      obtain ⟨htidy, hext₁, hshown⟩ := alight_shows hp (hbe.of_extends ht hext) h₁
      obtain ⟨htidy', hext', hshown'⟩ := ih htidy (hext.trans hext₁) h
      exact ⟨htidy', hext', by rw [hshown', hshown, List.foldl_cons]⟩

/-- Catching a trip depends on the arrival only, not on its id. -/
theorem board_eq_map (s : Search) (v : PatternView) (round position : Nat) (l : Label) :
    (s.board v round position l).map (Option.map fun b => { b with previous := 0 }) =
      s.board v round position ⟨0, l.arrival.unlinked⟩ := by
  unfold board
  dsimp only [StopArrival.unlinked]
  cases v.findBoarding s.heading s.filter position (s.heading.boardLimit l.arrival.time) with
  | error e => rfl
  | ok c =>
      cases c with
      | none => rfl
      | some c => rfl

theorem caught?_of_board {v : PatternView} {round position : Nat} {l : Label}
    {boarding : Option Boarding} {w : Way} (hw : w.arrival = l.arrival.unlinked)
    (h : s.board v round position l = .ok boarding) :
    s.caught? v round position w = boarding.map fun b => (w, { b with previous := 0 }) := by
  unfold caught?
  rw [hw, ← board_eq_map, h]
  cases boarding <;> rfl

theorem previous_of_board {v : PatternView} {round position : Nat} {l : Label} {b : Boarding}
    (h : s.board v round position l = .ok (some b)) : b.previous = l.id := by
  unfold board at h
  simp only [Fallible.bind_eq_ok] at h
  obtain ⟨c, -, h⟩ := h
  cases c with
  | none => simp [Fallible.pure_eq_ok] at h
  | some c =>
      simp only [Fallible.pure_eq_ok, Option.some_inj] at h
      rw [← h]

theorem boardAll_shows {t : StopTable} {v : PatternView} {round position : Nat}
    {labels : List Label} (hlabels : ∀ l ∈ labels, t.arrivals[l.id]? = some l.arrival)
    {onboard : List Boarding} (h : s.boardAll v round position labels = .ok onboard) :
    List.Forall₂ (Aboard t) onboard
      ((labels.map fun l => t.wayOf l.arrival).filterMap (s.caught? v round position)) := by
  induction labels generalizing onboard with
  | nil =>
      simp only [boardAll, Except.ok.injEq] at h
      subst h
      exact .nil
  | cons l ls ih =>
      simp only [boardAll, Fallible.bind_eq_ok, Fallible.pure_eq_ok] at h
      obtain ⟨boarding, hl, rest, hrest, rfl⟩ := h
      have hcaught := caught?_of_board (w := t.wayOf l.arrival) rfl hl
      have htail := ih (fun l hl => hlabels l (List.mem_cons_of_mem _ hl)) hrest
      rw [List.map_cons]
      cases boarding with
      | none =>
          rw [List.filterMap_cons_none hcaught]
          exact htail
      | some b =>
          rw [List.filterMap_cons_some hcaught]
          refine .cons ⟨l.arrival, ?_, rfl⟩ htail
          rw [previous_of_board hl]
          exact hlabels l (List.mem_cons_self ..)

theorem newLabelsAt_shows (hp : s.Tidy p) {round stop : Nat} {labels : List Label}
    (h : p.table.newLabelsAt round stop = .ok labels) :
    (s.shown p).fresh round stop = labels.map (fun l => p.table.wayOf l.arrival)
      ∧ ∀ l ∈ labels, p.table.arrivals[l.id]? = some l.arrival := by
  obtain ⟨all, hl, rfl⟩ := StopTable.newLabelsAt_eq_ok h
  refine ⟨?_, fun l hmem => (hp.table.listed hl l (List.mem_of_mem_filter hmem)).1⟩
  simp only [Chart.fresh, shown, hl, Option.getD_some, List.filter_map]
  rfl

theorem forall₂_aboard_of_extends {t t' : StopTable} (h : t.IsLinked) (ht : t.Extends t')
    {onboard : List Boarding} {caught : List (Way × Boarding)}
    (hb : List.Forall₂ (Aboard t) onboard caught) : List.Forall₂ (Aboard t') onboard caught :=
  hb.imp fun _ _ he => he.of_extends h ht

/-- One stop of a pattern. -/
theorem scanStop_shows (hp : s.Tidy p) {v : PatternView} {round : Nat} {entry : Nat × Nat}
    {onboard onboard' : List Boarding} {caught : List (Way × Boarding)}
    (hb : List.Forall₂ (Aboard p.table) onboard caught)
    (h : s.scanStop v round (p, onboard) entry = .ok (p', onboard')) :
    s.Tidy p' ∧ p.table.Extends p'.table
      ∧ ∃ caught', List.Forall₂ (Aboard p'.table) onboard' caught'
        ∧ Chart.scanStop s v round (s.shown p, caught) entry = (s.shown p', caught') := by
  obtain ⟨stop, position⟩ := entry
  unfold scanStop at h
  unfold Chart.scanStop
  simp only at h ⊢
  split at h
  case isFalse hno =>
    simp only [Except.ok.injEq, Prod.mk.injEq] at h
    obtain ⟨rfl, rfl⟩ := h
    exact ⟨hp, .refl _, caught, hb, by rw [if_neg hno]⟩
  case isTrue hyes =>
    simp only [Fallible.bind_eq_ok, Fallible.pure_eq_ok, Prod.mk.injEq] at h
    obtain ⟨p₁, halight, labels, hlabels, new, hboard, rfl, rfl⟩ := h
    obtain ⟨htidy, hext, hshown⟩ := alightAll_shows hp hp.table.linked (.refl _) hb halight
    obtain ⟨hfresh, hlisted⟩ := newLabelsAt_shows htidy hlabels
    refine ⟨htidy, hext, _, ?_, by rw [if_pos hyes, ← hshown, hfresh]⟩
    exact List.rel_append (forall₂_aboard_of_extends hp.table.linked hext hb)
      (boardAll_shows hlisted hboard)

theorem scanStops_shows (hp : s.Tidy p) {v : PatternView} {round : Nat}
    {entries : List (Nat × Nat)} {onboard onboard' : List Boarding}
    {caught : List (Way × Boarding)} (hb : List.Forall₂ (Aboard p.table) onboard caught)
    (h : entries.foldlM (s.scanStop v round) (p, onboard) = .ok (p', onboard')) :
    s.Tidy p' ∧ p.table.Extends p'.table
      ∧ s.shown p' = (entries.foldl (Chart.scanStop s v round) (s.shown p, caught)).1 := by
  induction entries generalizing p onboard caught with
  | nil =>
      rw [List.foldlM_nil, Fallible.pure_eq_ok, Prod.mk.injEq] at h
      obtain ⟨rfl, rfl⟩ := h
      exact ⟨hp, .refl _, rfl⟩
  | cons entry entries ih =>
      obtain ⟨⟨p₁, onboard₁⟩, h₁, h⟩ := Fallible.foldlM_cons_eq_ok.mp h
      obtain ⟨htidy, hext, caught₁, hb₁, hstep⟩ := scanStop_shows hp hb h₁
      obtain ⟨htidy', hext', hshown⟩ := ih htidy hb₁ h
      refine ⟨htidy', hext.trans hext', ?_⟩
      rw [hshown, List.foldl_cons, hstep]

theorem caught?_of_numTrips_zero {v : PatternView} (h : v.numTrips = 0) (round position : Nat)
    (w : Way) : s.caught? v round position w = none := by
  unfold caught? board PatternView.findBoarding
  rw [List.eq_nil_of_length_eq_zero h]
  cases v.stopAt position <;> rfl

theorem view_eq_ok {pattern : Nat} {v : PatternView} (h : s.view pattern = .ok v) :
    s.viewList[pattern]? = some v := by
  unfold view at h
  cases hv : s.views[pattern]? with
  | none => simp [hv] at h
  | some thunk =>
      simp only [hv, Except.ok.injEq] at h
      simp [viewList, hv, h]

/-- Going along one pattern. -/
theorem scanPattern_shows (hp : s.Tidy p) {round pattern : Nat}
    (h : s.scanPattern round p pattern = .ok p') :
    s.Tidy p' ∧ p.table.Extends p'.table
      ∧ ∃ v, s.viewList[pattern]? = some v ∧ s.shown p' = (s.shown p).scan s round v := by
  unfold scanPattern at h
  simp only [Fallible.bind_eq_ok] at h
  obtain ⟨v, hv, h⟩ := h
  split at h
  case isTrue hnone =>
    simp only [Fallible.pure_eq_ok] at h
    subst h
    refine ⟨hp, .refl _, v, view_eq_ok hv, (Chart.scan_eq_self fun stop _ position => ?_).symm⟩
    exact List.filterMap_eq_nil_iff.mpr fun w _ => caught?_of_numTrips_zero hnone round position w
  case isFalse =>
    simp only [Fallible.bind_eq_ok, Fallible.pure_eq_ok] at h
    obtain ⟨⟨p₁, onboard⟩, hscan, rfl⟩ := h
    obtain ⟨htidy, hext, hshown⟩ := scanStops_shows hp .nil hscan
    exact ⟨htidy, hext, v, view_eq_ok hv, hshown⟩

end Scan

end Search
end JourneyPlanner
