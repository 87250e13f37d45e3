import JourneyPlanner.Proofs.Tidiness
import Mathlib.Data.List.Basic

/-!
The chart that the progress of a search stands for, and what adding arrivals and
journeys does to it.
-/

namespace JourneyPlanner

namespace DestinationArrival

/-- The journey's end without the id of the arrival before it. -/
def unlinked (d : DestinationArrival) : DestinationArrival :=
  { d with previous := 0 }

end DestinationArrival

namespace StopTable

def journeyOf (t : StopTable) (d : DestinationArrival) : Journey where
  arrivals := t.arrivalsTo d.previous
  ending := d.unlinked

end StopTable

namespace Event

/-- What a report says about a decision of the search. -/
def remark? : Event → Option Remark
  | .arrival r => r.rival.map fun v => .contest v.unlinked r.element.unlinked
  | .path r => if r.action = .accept then some (.journey r.element.merits) else none

end Event

namespace Search

def shown (s : Search) (p : Progress) : Chart where
  fronts round stop := ((p.table.front? round stop).getD []).map fun l => p.table.wayOf l.arrival
  reached round :=
    (p.table.touchedIn round).filterMap fun id => p.table.arrivals[id]?.map p.table.wayOf
  journeys := p.destination.map p.table.journeyOf
  iteration := p.table.iteration
  log := if s.isWatchedFully then p.events.toList.filterMap Event.remark? else []

structure Tidy (s : Search) (p : Progress) : Prop where
  table : p.table.Tidy s.dominates
  destination : ∀ d ∈ p.destination, ∃ a, p.table.arrivals[d.previous]? = some a

variable {s : Search} {p : Progress}

theorem dominates_trans {a b c : StopArrival} (hab : s.dominates a b = true)
    (hbc : s.dominates b c = true) : s.dominates a c = true :=
  StopArrival.dominates_trans hab hbc

section Reports

/-- Reports change nothing but what was reported. -/
theorem reportArrival_frame (s : Search) (p : Progress) (action : Action) (a : StopArrival)
    (rival : Option StopArrival) (reason : Reason) :
    (s.reportArrival p action a rival reason).table = p.table
      ∧ (s.reportArrival p action a rival reason).destination = p.destination := by
  unfold reportArrival
  split
  · exact ⟨rfl, rfl⟩
  · split <;> exact ⟨rfl, rfl⟩

theorem shown_reportArrival (s : Search) (p : Progress) (action : Action) (a : StopArrival)
    (rival : Option StopArrival) (reason : Reason) :
    s.shown (s.reportArrival p action a rival reason) =
      (s.shown p).note s (rival.map fun v => .contest v.unlinked a.unlinked).toList := by
  obtain ⟨ht, hd⟩ := reportArrival_frame s p action a rival reason
  by_cases hw : s.isWatchedFully = true
  · have hwatch : s.watch = some { arrivals := true, paths := true } := by
      simpa [isWatchedFully] using hw
    cases rival <;>
      simp [shown, Chart.note, hw, reportArrival, hwatch, Watch.wants, Event.remark?]
  · cases rival <;> simp [shown, Chart.note, hw, ht, hd]

theorem reportPath_frame (s : Search) (p : Progress) (action : Action) (d : DestinationArrival)
    (rival : Option DestinationArrival) (reason : Reason) :
    (s.reportPath p action d rival reason).table = p.table
      ∧ (s.reportPath p action d rival reason).destination = p.destination := by
  unfold reportPath
  split
  · exact ⟨rfl, rfl⟩
  · split <;> exact ⟨rfl, rfl⟩

theorem shown_reportPath (s : Search) (p : Progress) (action : Action) (d : DestinationArrival)
    (rival : Option DestinationArrival) (reason : Reason) :
    s.shown (s.reportPath p action d rival reason) =
      (s.shown p).note s (if action = .accept then [.journey d.merits] else []) := by
  obtain ⟨ht, hd⟩ := reportPath_frame s p action d rival reason
  by_cases hw : s.isWatchedFully = true
  · have hwatch : s.watch = some { arrivals := true, paths := true } := by
      simpa [isWatchedFully] using hw
    by_cases ha : action = .accept <;>
      simp [shown, Chart.note, hw, reportPath, hwatch, Event.remark?, ha]
  · simp [shown, Chart.note, hw, ht, hd]

/-- Dropped labels are reported one after the other. -/
theorem reportDrops_frame (s : Search) (dropped : List Label) (p : Progress) (a : StopArrival) :
    let p' := dropped.foldl
      (fun p old => s.reportArrival p .drop old.arrival (some a) .dominated) p
    p'.table = p.table ∧ p'.destination = p.destination
      ∧ s.shown p' = (s.shown p).note s
        (dropped.map fun l => .contest a.unlinked l.arrival.unlinked) := by
  induction dropped generalizing p with
  | nil => exact ⟨rfl, rfl, (Chart.note_nil ..).symm⟩
  | cons l rest ih =>
      obtain ⟨ht, hd, hshown⟩ :=
        ih (s.reportArrival p .drop l.arrival (some a) .dominated)
      obtain ⟨ht', hd'⟩ := reportArrival_frame s p .drop l.arrival (some a) .dominated
      refine ⟨ht.trans ht', hd.trans hd', ?_⟩
      rw [List.foldl_cons, hshown, shown_reportArrival, Chart.note_note]
      rfl

theorem reportPathDrops_frame (s : Search) (dropped : List DestinationArrival) (p : Progress)
    (d : DestinationArrival) :
    let p' := dropped.foldl (fun p old => s.reportPath p .drop old (some d) .dominated) p
    p'.table = p.table ∧ p'.destination = p.destination ∧ s.shown p' = s.shown p := by
  induction dropped generalizing p with
  | nil => exact ⟨rfl, rfl, rfl⟩
  | cons old rest ih =>
      obtain ⟨ht, hd, hshown⟩ := ih (s.reportPath p .drop old (some d) .dominated)
      obtain ⟨ht', hd'⟩ := reportPath_frame s p .drop old (some d) .dominated
      refine ⟨ht.trans ht', hd.trans hd', ?_⟩
      rw [List.foldl_cons, hshown, shown_reportPath]
      exact Chart.note_nil ..

end Reports

section Arrivals

@[simp] theorem fate_unlinked (c : Chart) (a : StopArrival) : c.fate s a.unlinked = c.fate s a :=
  rfl

theorem prunes_shown (s : Search) (p : Progress) (a : StopArrival) :
    (s.shown p).prunes s a = (s.pruned? p a).isSome := by
  unfold Chart.prunes pruned? DestinationArrival.pruning?
  split
  case isTrue h =>
    simp only [h, Bool.true_and, shown, List.any_map]
    rw [Bool.eq_iff_iff, List.any_eq_true, List.find?_isSome]
    rfl
  case isFalse h => simp [h]

theorem find?_shown (s : Search) (p : Progress) (a : StopArrival) (round : Nat) :
    ((s.shown p).fronts round a.stop).find? (fun w => s.dominates w.arrival a) =
      (((p.table.front? round a.stop).getD []).find? fun l => s.dominates l.arrival a).map
        fun l => p.table.wayOf l.arrival := by
  simp only [shown, List.find?_map]
  rfl

theorem rival?_shown (s : Search) (p : Progress) (a : StopArrival) {old : List Label}
    (hold : p.table.front? a.round a.stop = some old) :
    (s.shown p).rival? s a =
      ((p.table.rivalBelow? s.dominates a).or
        (old.find? fun l => s.dominates l.arrival a)).map fun l => p.table.wayOf l.arrival := by
  unfold Chart.rival? StopTable.rivalBelow?
  rw [List.range_succ, List.findSome?_append]
  have hbelow : (List.range a.round).findSome? (fun round =>
        ((s.shown p).fronts round a.stop).find? fun w => s.dominates w.arrival a) =
      ((List.range a.round).findSome? fun round =>
        ((p.table.front? round a.stop).getD []).find? fun l => s.dominates l.arrival a).map
          fun l => p.table.wayOf l.arrival := by
    simp only [find?_shown]
    exact List.map_findSome?.symm
  rw [hbelow, List.findSome?_cons, find?_shown, hold, Option.getD_some, List.findSome?_nil]
  cases (List.range a.round).findSome? fun round =>
      ((p.table.front? round a.stop).getD []).find? fun l => s.dominates l.arrival a with
  | some l => rfl
  | none => cases old.find? fun l => s.dominates l.arrival a <;> rfl

theorem journeyOf_of_extends {t t' : StopTable} (h : t.IsLinked) (ht : t.Extends t')
    {d : DestinationArrival} (hd : ∃ a, t.arrivals[d.previous]? = some a) :
    t'.journeyOf d = t.journeyOf d := by
  obtain ⟨a, ha⟩ := hd
  simp only [StopTable.journeyOf, StopTable.arrivalsTo_of_extends h ht ha]

section Place

variable {a : StopArrival} {old : List Label}

theorem fronts_place (hp : s.Tidy p) (hold : p.table.front? a.round a.stop = some old)
    (ha : p.table.Supports a) (round stop : Nat) :
    (((p.table.place a (p.table.labelsAfter s.dominates old a)).front? round stop).getD []).map
        (fun l => (p.table.place a (p.table.labelsAfter s.dominates old a)).wayOf l.arrival)
      = ((s.shown p).keep s (p.table.wayOf a)).fronts round stop := by
  have hself := StopTable.wayOf_place hp.table.linked ha a (p.table.labelsAfter s.dominates old a)
  have hlabels : ∀ {round stop : Nat} {labels : List Label},
      p.table.front? round stop = some labels → ∀ l ∈ labels,
        (p.table.place a (p.table.labelsAfter s.dominates old a)).wayOf l.arrival
          = p.table.wayOf l.arrival :=
    fun hl l hmem => StopTable.wayOf_place hp.table.linked
      (hp.table.linked.supports (hp.table.listed hl l hmem).1) a _
  have hfront : (s.shown p).fronts a.round a.stop = old.map fun l => p.table.wayOf l.arrival := by
    simp [shown, hold]
  simp only [StopTable.front?_place]
  change _ = if a.round = round ∧ a.stop = stop then (s.shown p).frontAfter s (p.table.wayOf a)
    else (s.shown p).fronts round stop
  by_cases hplace : a.round = round ∧ a.stop = stop
  · obtain ⟨rfl, rfl⟩ := hplace
    rw [if_pos ⟨rfl, rfl⟩, if_pos ⟨rfl, rfl⟩, hold]
    change _ = ((s.shown p).fronts a.round a.stop).filter _ ++ _
    rw [hfront, List.filter_map]
    generalize htable : p.table.place a _ = t' at hlabels hself ⊢
    rw [Option.map_some, Option.getD_some, StopTable.labelsAfter, List.map_append,
      List.map_singleton, hself]
    refine congrArg (· ++ [p.table.wayOf a]) (List.map_congr_left fun l hl => ?_)
    exact hlabels hold l (List.mem_of_mem_filter hl)
  · rw [if_neg hplace, if_neg hplace]
    cases hl : p.table.front? round stop with
    | none => simp [shown, hl]
    | some labels =>
        simp only [shown, hl, Option.getD_some]
        exact List.map_congr_left (hlabels hl)

theorem reached_place (hp : s.Tidy p) (hold : p.table.front? a.round a.stop = some old)
    (ha : p.table.Supports a) (labels : List Label) (round : Nat) :
    ((p.table.place a labels).touchedIn round).filterMap
        (fun id => (p.table.place a labels).arrivals[id]?.map (p.table.place a labels).wayOf)
      = ((s.shown p).keep s (p.table.wayOf a)).reached round := by
  have hround : a.round < p.table.touched.size := hp.table.rows ▸ StopTable.front?_round_lt hold
  have hlast : a.round = round ∧ round < p.table.touched.size ↔ a.round = round :=
    and_iff_left_of_imp fun heq => heq ▸ hround
  have hkept : ∀ id ∈ p.table.touchedIn round,
      (p.table.place a labels).arrivals[id]?.map (p.table.place a labels).wayOf =
        p.table.arrivals[id]?.map p.table.wayOf := by
    intro id hid
    obtain ⟨b, hb, -⟩ := hp.table.touched hid
    rw [(p.table.extends_place a labels).arrivals hb, hb, Option.map_some, Option.map_some,
      StopTable.wayOf_place hp.table.linked (hp.table.linked.supports hb)]
  change _ = if a.round = round then (s.shown p).reached round ++ [p.table.wayOf a]
    else (s.shown p).reached round
  simp only [StopTable.touchedIn_place, hlast]
  split
  case isTrue =>
    rw [List.filterMap_append, List.filterMap_congr hkept]
    simp [StopTable.arrivals_place_self, StopTable.wayOf_place hp.table.linked ha, shown]
  case isFalse => exact List.filterMap_congr hkept

/-- Placing an arrival keeps its way in the chart. -/
theorem shown_place (hp : s.Tidy p) (hold : p.table.front? a.round a.stop = some old)
    (ha : p.table.Supports a) :
    s.shown (p.place a (p.table.labelsAfter s.dominates old a)) =
      (s.shown p).keep s (p.table.wayOf a) := by
  rw [Progress.place_eq]
  refine Chart.mk.injEq .. |>.mpr ⟨?fronts, ?reached, ?journeys, rfl, rfl⟩
  case fronts =>
    funext round stop
    exact fronts_place hp hold ha round stop
  case reached =>
    funext round
    exact reached_place hp hold ha _ round
  case journeys =>
    refine List.map_congr_left fun d hd => ?_
    exact journeyOf_of_extends hp.table.linked (p.table.extends_place a _) (hp.destination d hd)

end Place

theorem Tidy.of_eq {p' : Progress} (hp : s.Tidy p) (ht : p'.table = p.table)
    (hd : p'.destination = p.destination) : s.Tidy p' where
  table := by
    rw [ht]
    exact hp.table
  destination := by
    rw [ht, hd]
    exact hp.destination

/-- How an arrival is judged, by the front of its round and those below. -/
theorem judge_eq_ok {t : StopTable} {a : StopArrival} {addition : Pareto.Addition Label}
    (h : t.judge s.dominates a = .ok addition) :
    ∃ old, t.front? a.round a.stop = some old ∧
      ((∃ rival, (t.rivalBelow? s.dominates a).or (old.find? fun l => s.dominates l.arrival a)
            = some rival ∧ addition = .rejected rival)
        ∨ ((t.rivalBelow? s.dominates a).or (old.find? fun l => s.dominates l.arrival a) = none
          ∧ addition = .accepted (t.labelsAfter s.dominates old a)
            (old.filter fun l => s.dominates a l.arrival))) := by
  unfold StopTable.judge StopTable.front at h
  cases hold : t.front? a.round a.stop with
  | none => simp [hold, bind, Except.bind] at h
  | some old =>
      refine ⟨old, rfl, ?_⟩
      simp only [hold, bind, Except.bind] at h
      cases hbelow : t.rivalBelow? s.dominates a with
      | some rival =>
          simp only [hbelow, Fallible.pure_eq_ok] at h
          exact Or.inl ⟨rival, rfl, h.symm⟩
      | none =>
          simp only [hbelow, Fallible.pure_eq_ok] at h
          subst h
          unfold Pareto.add Pareto.rival?
          cases hfind : old.find? fun l => s.dominates l.arrival a with
          | some rival => exact Or.inl ⟨rival, by simp, by simp⟩
          | none => exact Or.inr ⟨by simp, by simp [StopTable.labelsAfter, StopTable.numAccepted]⟩

/-- Adding an arrival offers its way to the chart. -/
theorem addArrival_shows (hp : s.Tidy p) {a : StopArrival} (ha : p.table.Supports a)
    (hiteration : a.iteration = p.table.iteration) {p' : Progress} {result : Option Nat}
    (h : s.addArrival p a = .ok (p', result)) :
    s.Tidy p' ∧ p.table.Extends p'.table ∧
      ((result = none ∧ s.shown p' = (s.shown p).offer s (p.table.wayOf a)
          ∧ (s.shown p).fate s a ≠ .accepted)
        ∨ ∃ id, result = some id ∧ s.shown p' = (s.shown p).place s (p.table.wayOf a)
          ∧ (s.shown p).fate s a = .accepted ∧ p'.table.arrivals[id]? = some a) := by
  have hprunes := prunes_shown s p a
  unfold addArrival at h
  cases hpruned : s.pruned? p a with
  | some journey =>
      simp only [hpruned, Except.ok.injEq, Prod.mk.injEq] at h
      obtain ⟨rfl, rfl⟩ := h
      obtain ⟨ht, hd⟩ := reportArrival_frame s p .reject a none (.pruned journey)
      have hfate : (s.shown p).fate s a = .pruned :=
        Chart.fate_of_pruned (by simp [hprunes, hpruned])
      refine ⟨hp.of_eq ht hd, ht ▸ .refl _, Or.inl ⟨rfl, ?_, by simp [hfate]⟩⟩
      rw [shown_reportArrival, Chart.offer_of_pruned hfate]
      exact Chart.note_nil ..
  | none =>
      have hopen : (s.shown p).prunes s a = false := by simp [hprunes, hpruned]
      simp only [hpruned, Fallible.bind_eq_ok] at h
      obtain ⟨addition, hjudge, h⟩ := h
      obtain ⟨old, hold, hcases⟩ := judge_eq_ok hjudge
      have hrival := rival?_shown s p a hold
      rcases hcases with ⟨rival, hfound, rfl⟩ | ⟨hnone, rfl⟩
      · simp only [Fallible.pure_eq_ok, Prod.mk.injEq] at h
        obtain ⟨rfl, rfl⟩ := h
        rw [hfound] at hrival
        have hfate := Chart.fate_of_rival hopen hrival
        obtain ⟨ht, hd⟩ := reportArrival_frame s p .reject a (some rival.arrival) .dominated
        refine ⟨hp.of_eq ht hd, ht ▸ .refl _, Or.inl ⟨rfl, ?_, by simp [hfate]⟩⟩
        rw [shown_reportArrival, Chart.offer_of_rejected hfate]
        rfl
      · simp only [Fallible.pure_eq_ok, Prod.mk.injEq] at h
        obtain ⟨rfl, rfl⟩ := h
        rw [hnone] at hrival
        have hfate := Chart.fate_of_none hopen hrival
        have hnew : ∀ l ∈ old, s.dominates l.arrival a = false := by
          have hfind := (Option.or_eq_none_iff.mp hnone).2
          simpa using List.find?_eq_none.mp hfind
        obtain ⟨hpt, hpd⟩ := reportArrival_frame s
          (p.place a (p.table.labelsAfter s.dominates old a)) .accept a none .accepted
        obtain ⟨ht, hd, hshown⟩ := reportDrops_frame s
          (old.filter fun l => s.dominates a l.arrival)
          (s.reportArrival (p.place a (p.table.labelsAfter s.dominates old a)) .accept a none
            .accepted) a
        have hext := p.table.extends_place a (p.table.labelsAfter s.dominates old a)
        have hplace : s.Tidy (p.place a (p.table.labelsAfter s.dominates old a)) :=
          ⟨StopTable.tidy_place hp.table hold ha hiteration hnew,
            fun d hd => (hp.destination d hd).imp fun _ => hext.arrivals⟩
        refine ⟨hplace.of_eq (ht.trans hpt) (hd.trans hpd), ?_, Or.inr ⟨_, rfl, ?_, hfate, ?_⟩⟩
        · rw [ht, hpt]
          exact hext
        · rw [hshown, shown_reportArrival, shown_place hp hold ha, Chart.place]
          refine congrArg₂ _ (Chart.note_nil ..) ?_
          change _ = List.map _ (((s.shown p).fronts a.round a.stop).filter _)
          simp only [shown, hold, Option.getD_some, List.filter_map, List.map_map]
          rfl
        · rw [ht, hpt]
          exact StopTable.arrivals_place_self p.table a _

end Arrivals

end Search
end JourneyPlanner
