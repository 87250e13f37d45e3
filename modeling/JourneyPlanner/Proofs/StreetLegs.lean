import JourneyPlanner.Proofs.Agreement
import JourneyPlanner.Proofs.Answering
import JourneyPlanner.Proofs.Fairness
import JourneyPlanner.Proofs.Inheritance
import JourneyPlanner.Proofs.Lockstep

/-!
Street legs count as a set. Of the legs at one stop the shortest dominates the other ones
at once, so that neither their order nor further legs that are no shorter show in a chart:
only the ways that the search begins with are found in another order.
-/

namespace JourneyPlanner

namespace Pareto

variable {α : Type} {dominates : α → α → Bool} {front : List α} {x y : α}

theorem insert_of_dominated (hy : y ∈ front) (h : dominates y x = true) :
    insert dominates front x = front := by
  cases hr : rival? dominates front x with
  | some rival => exact insert_of_rival hr
  | none => exact absurd h (by simpa using List.find?_eq_none.mp hr y hy)

section Transitive

variable (trans : ∀ x y z, dominates x y = true → dominates y z = true → dominates x z = true)

include trans in
/-- What an element dominates makes no difference after it. -/
theorem insert_insert_of_dominated (h : dominates y x = true) :
    insert dominates (insert dominates front y) x = insert dominates front y := by
  cases hr : rival? dominates front y with
  | some rival =>
      rw [insert_of_rival hr]
      exact insert_of_dominated (List.mem_of_find?_eq_some hr)
        (trans _ _ _ (List.find?_some (p := fun z => dominates z y) hr) h)
  | none =>
      rw [insert_of_none hr]
      exact insert_of_dominated (List.mem_append_right _ (List.mem_singleton_self y)) h

include trans in
/-- What an element dominates makes no difference before it, unless they are as good as
each other. -/
theorem insert_insert_of_dominates (h : dominates y x = true) (hnot : dominates x y = false) :
    insert dominates (insert dominates front x) y = insert dominates front y := by
  cases hx : rival? dominates front x with
  | some rival => rw [insert_of_rival hx]
  | none =>
      have hy : rival? dominates front y = none := by
        refine List.find?_eq_none.mpr fun z hz hzy => ?_
        exact List.find?_eq_none.mp hx z hz (trans _ _ _ hzy h)
      have hy' : rival? dominates (front.filter (fun z => !dominates x z) ++ [x]) y = none := by
        refine List.find?_eq_none.mpr fun z hz => ?_
        rcases List.mem_append.mp hz with hz | hz
        · exact List.find?_eq_none.mp hy z (List.mem_of_mem_filter hz)
        · rw [List.mem_singleton.mp hz, hnot]
          exact Bool.false_ne_true
      rw [insert_of_none hx, insert_of_none hy', insert_of_none hy, List.filter_append,
        List.filter_cons_of_neg (by simp [h]), List.filter_nil, List.append_nil, List.filter_filter]
      refine congrArg (· ++ [y]) (List.filter_congr fun z _ => ?_)
      cases hz : dominates x z with
      | false => simp
      | true => simp [trans _ _ _ h hz]

include trans in
theorem foldl_insert_of_dominated {xs : List α} (h : ∀ x ∈ xs, dominates y x = true) :
    xs.foldl (insert dominates) (insert dominates front y) = insert dominates front y := by
  induction xs with
  | nil => rfl
  | cons x xs ih =>
      rw [List.foldl_cons, insert_insert_of_dominated trans (h x (List.mem_cons_self ..))]
      exact ih fun z hz => h z (List.mem_cons_of_mem _ hz)

include trans in
/-- Of a list in which one element dominates all, only that one counts. -/
theorem foldl_insert {xs : List α} (hy : y ∈ xs) (hbest : ∀ x ∈ xs, dominates y x = true)
    (honly : ∀ x ∈ xs, dominates x y = true → x = y) (front : List α) :
    xs.foldl (insert dominates) front = insert dominates front y := by
  induction xs generalizing front with
  | nil => simp at hy
  | cons x xs ih =>
      have hrest : ∀ z ∈ xs, dominates y z = true := fun z hz => hbest z (List.mem_cons_of_mem _ hz)
      rw [List.foldl_cons]
      by_cases hx : x = y
      · subst hx
        exact foldl_insert_of_dominated trans hrest
      · have hlater : y ∈ xs := (List.mem_cons.mp hy).resolve_left fun h => hx h.symm
        have hworse : dominates x y = false := by
          rw [← Bool.not_eq_true]
          exact fun h => hx (honly x (List.mem_cons_self ..) h)
        rw [ih hlater hrest fun z hz => honly z (List.mem_cons_of_mem _ hz)]
        exact insert_insert_of_dominates trans (hbest x (List.mem_cons_self ..)) hworse

include trans in
/-- Where longer times are worse, only the least time counts. -/
theorem foldl_insert_least {f : Time → α} (hf : ∀ {d e : Time}, dominates (f d) (f e) = true ↔ d ≤ e)
    {ds ds' : List Time} (h : ds'.min? = ds.min?) (front : List α) :
    (ds'.map f).foldl (insert dominates) front = (ds.map f).foldl (insert dominates) front := by
  have hleast : ∀ ds : List Time, (ds.map f).foldl (insert dominates) front
      = (ds.min?).elim front fun d => insert dominates front (f d) := by
    intro ds
    cases hmin : ds.min? with
    | none => rw [List.min?_eq_none_iff.mp hmin]; rfl
    | some d =>
        obtain ⟨hd, hle⟩ := List.min?_eq_some_iff.mp hmin
        refine foldl_insert trans (List.mem_map_of_mem hd) ?_ ?_ front
        · rintro _ hx
          obtain ⟨e, he, rfl⟩ := List.mem_map.mp hx
          exact hf.mpr (hle e he)
        · rintro _ hx hdominates
          obtain ⟨e, he, rfl⟩ := List.mem_map.mp hx
          exact congrArg f (Int.le_antisymm (hf.mp hdominates) (hle e he))
  rw [hleast, hleast, h]

end Transitive

end Pareto

namespace StreetLeg

variable {legs legs' legs'' : List StreetLeg}

/-- The same legs in another order, with repetitions and with further legs that are no
shorter than one to the same stop. -/
inductive Varies : List StreetLeg → List StreetLeg → Prop where
  | perm {legs legs' : List StreetLeg} (h : legs.Perm legs') : Varies legs legs'
  | further {legs : List StreetLeg} {known leg : StreetLeg} (hknown : known ∈ legs)
      (hstop : leg.stop = known.stop) (hduration : known.duration ≤ leg.duration) :
      Varies legs (leg :: legs)
  | trans {legs legs' legs'' : List StreetLeg} (h : Varies legs legs') (h' : Varies legs' legs'') :
      Varies legs legs''

/-- For each leg of the second list the first one has one to the same stop that is no longer. -/
def Covers (legs legs' : List StreetLeg) : Prop :=
  ∀ leg ∈ legs', ∃ known ∈ legs, known.stop = leg.stop ∧ known.duration ≤ leg.duration

theorem Covers.of_subset (h : legs' ⊆ legs) : Covers legs legs' :=
  fun leg hleg => ⟨leg, h hleg, rfl, Int.le_refl _⟩

theorem Covers.trans (h : Covers legs legs') (h' : Covers legs' legs'') : Covers legs legs'' := by
  intro leg hleg
  obtain ⟨middle, hmiddle, hstop, hduration⟩ := h' leg hleg
  obtain ⟨known, hknown, hstop', hduration'⟩ := h middle hmiddle
  exact ⟨known, hknown, hstop'.trans hstop, Int.le_trans hduration' hduration⟩

theorem Varies.covers (h : Varies legs legs') : Covers legs legs' ∧ Covers legs' legs := by
  induction h with
  | perm h => exact ⟨.of_subset h.symm.subset, .of_subset h.subset⟩
  | further hknown hstop hduration =>
      refine ⟨fun leg hleg => ?_, .of_subset (List.subset_cons_self ..)⟩
      rcases List.mem_cons.mp hleg with rfl | hleg
      · exact ⟨_, hknown, hstop.symm, hduration⟩
      · exact ⟨leg, hleg, rfl, Int.le_refl _⟩
  | trans _ _ ih ih' => exact ⟨ih.1.trans ih'.1, ih'.2.trans ih.2⟩

/-- No leg is left out. -/
theorem Varies.subset (h : Varies legs legs') : legs ⊆ legs' := by
  induction h with
  | perm h => exact h.subset
  | further => exact List.subset_cons_self ..
  | trans _ _ ih ih' => exact fun _ hleg => ih' (ih hleg)

theorem min?_eq_of_le {xs ys : List Time} (h : ∀ y ∈ ys, ∃ x ∈ xs, x ≤ y)
    (h' : ∀ x ∈ xs, ∃ y ∈ ys, y ≤ x) : ys.min? = xs.min? := by
  cases hx : xs.min? with
  | none =>
      rw [List.min?_eq_none_iff] at hx ⊢
      refine List.eq_nil_iff_forall_not_mem.mpr fun y hy => ?_
      obtain ⟨x, hmem, -⟩ := h y hy
      simp [hx] at hmem
  | some least =>
      obtain ⟨hleast, hle⟩ := List.min?_eq_some_iff.mp hx
      obtain ⟨y, hy, hyle⟩ := h' least hleast
      have hall : ∀ z ∈ ys, least ≤ z := fun z hz => by
        obtain ⟨x, hmem, hxz⟩ := h z hz
        exact Int.le_trans (hle x hmem) hxz
      exact List.min?_eq_some_iff.mpr ⟨Int.le_antisymm (hall y hy) hyle ▸ hy, hall⟩

/-- Durations of the legs at a stop. -/
def durationsAt (legs : List StreetLeg) (stop : Nat) : List Time :=
  (legs.filter fun l => l.stop == stop).map (·.duration)

theorem mem_durationsAt {stop : Nat} {d : Time} :
    d ∈ durationsAt legs stop ↔ ∃ leg ∈ legs, leg.stop = stop ∧ leg.duration = d := by
  simp only [durationsAt, List.mem_map, List.mem_filter, beq_iff_eq, and_assoc]

theorem min?_durationsAt (h : Covers legs legs') (h' : Covers legs' legs) (stop : Nat) :
    (durationsAt legs' stop).min? = (durationsAt legs stop).min? := by
  have hcovered : ∀ {legs legs' : List StreetLeg}, Covers legs legs' →
      ∀ d ∈ durationsAt legs' stop, ∃ e ∈ durationsAt legs stop, e ≤ d := by
    intro legs legs' h d hd
    obtain ⟨leg, hleg, rfl, rfl⟩ := mem_durationsAt.mp hd
    obtain ⟨known, hknown, hstop, hduration⟩ := h leg hleg
    exact ⟨_, mem_durationsAt.mpr ⟨known, hknown, hstop, rfl⟩, hduration⟩
  exact min?_eq_of_le (hcovered h) (hcovered h')

theorem min?_durations (h : Covers legs legs') (h' : Covers legs' legs) :
    (legs'.map (·.duration)).min? = (legs.map (·.duration)).min? := by
  have hcovered : ∀ {legs legs' : List StreetLeg}, Covers legs legs' →
      ∀ d ∈ legs'.map (·.duration), ∃ e ∈ legs.map (·.duration), e ≤ d := by
    intro legs legs' h d hd
    obtain ⟨leg, hleg, rfl⟩ := List.mem_map.mp hd
    obtain ⟨known, hknown, -, hduration⟩ := h leg hleg
    exact ⟨_, List.mem_map_of_mem hknown, hduration⟩
  exact min?_eq_of_le (hcovered h) (hcovered h')

end StreetLeg

namespace Heading

variable {h : Heading} {a d e : Time}

theorem betterOrEqual_advance (hx : h.IsExact) :
    h.betterOrEqual (h.advance a d) (h.advance a e) = true ↔ d ≤ e := by
  unfold betterOrEqual advance
  cases h.direction <;> simp only [hx.keep, decide_eq_true_eq] <;> grind

end Heading

/-- Searches that differ in street legs that cover each other, for anybody who watches or
stops them. -/
structure Search.SharesLegs (s s' : Search) : Prop where
  alike : ∃ origin target watch supervisor, s' = { s with
    origin := origin
    target := target
    watch := watch
    supervisor := supervisor }
  origin : StreetLeg.Covers s.origin s'.origin ∧ StreetLeg.Covers s'.origin s.origin
  target : StreetLeg.Covers s.target s'.target ∧ StreetLeg.Covers s'.target s.target

namespace Search.SharesLegs

variable {s s' : Search}

theorem dominates (hs : s.SharesLegs s') : s'.dominates = s.dominates := by
  obtain ⟨origin, target, watch, supervisor, rfl⟩ := hs.alike
  rfl

theorem bound (hs : s.SharesLegs s') (a : StopArrival) : s'.bound a = s.bound a := by
  have hleast : s'.leastDuration = s.leastDuration :=
    congrArg (Option.getD · 0) (StreetLeg.min?_durations hs.target.1 hs.target.2)
  unfold Search.bound
  rw [hleast]
  obtain ⟨origin, target, watch, supervisor, rfl⟩ := hs.alike
  rfl

theorem targetDurations (hs : s.SharesLegs s') (stop : Nat) :
    (s'.targetDurations stop).min? = (s.targetDurations stop).min? :=
  StreetLeg.min?_durationsAt hs.target.1 hs.target.2 stop

theorem exact (hs : s.SharesLegs s') : s.exact.SharesLegs s'.exact := by
  obtain ⟨origin, target, watch, supervisor, rfl⟩ := hs.alike
  exact ⟨⟨origin, target, watch, supervisor, rfl⟩, hs.origin, hs.target⟩

/-- What fits with all legs fits with some of them. -/
theorem fits (hs : s.SharesLegs s') (hwf : s.WellFormed) (horigin : s.origin ⊆ s'.origin)
    (htarget : s.target ⊆ s'.target) {searchDate : Date} (hfits : s'.Fits searchDate) :
    s.Fits searchDate := by
  obtain ⟨hslack, hwalk, hnonneg⟩ := hwf.nonneg
  have hleg : s.longestLeg ≤ s'.longestLeg := by
    refine longest_le (nonneg_longest _) fun d hd => le_longest ?_
    refine List.map_subset _ (List.append_subset.mpr ⟨?_, ?_⟩) hd
    · exact List.subset_append_of_subset_left _ horigin
    · exact List.subset_append_of_subset_right _ htarget
  obtain ⟨origin, target, watch, supervisor, rfl⟩ := hs.alike
  have hleeway : 0 ≤ s.leeway ∧ s.leeway ≤ Search.leeway
      { s with origin := origin, target := target, watch := watch, supervisor := supervisor } :=
    ⟨by unfold leeway; grind, Int.add_le_add_left hleg _⟩
  refine ⟨hfits.trips, fun t ht => ?_, fun t ht t' ht' => ?_⟩
  · obtain ⟨hlow, hhigh⟩ := hfits.near t ht
    grind [Time.Fits, leastTime, greatestTime]
  · have hapart := hfits.apart t ht t' ht'
    grind

end Search.SharesLegs

namespace Chart

/-- Charts that differ in the ways that the current iteration began with, and in what was
remarked. -/
structure Resembles (c c' : Chart) : Prop where
  fronts : c'.fronts = c.fronts
  reached : ∀ {n : Nat}, 0 < n → c'.reached n = c.reached n
  journeys : c'.journeys = c.journeys
  iteration : c'.iteration = c.iteration

variable {s s' : Search} {c c' : Chart} {w : Way} {a : StopArrival} {time : Time}

section Reaching

theorem beats_journeyAlong (hx : s.heading.IsExact) {d e : Time} :
    beats s (journeyAlong s w d) (journeyAlong s w e) = true ↔ d ≤ e := by
  simp only [beats, DestinationArrival.dominates, Merits.dominates, journeyAlong,
    Search.journeyFrom, Heading.betterOrEqual_refl, Heading.betterOrEqual_advance hx, Nat.le_refl,
    decide_true, Bool.or_true, Bool.and_true, Bool.true_and, Bool.and_eq_true, Bool.or_eq_true,
    and_iff_left_iff_imp]
  intro hde
  exact Or.inr (decide_eq_true
    (Cost.plus_le_plus (Nat.le_refl _) (s.rates.walking_le_walking hde)))

theorem beats_trans (i j k : Journey) (hij : beats s i j = true) (hjk : beats s j k = true) :
    beats s i k = true :=
  Merits.dominates_trans hij hjk

theorem journeys_reach : (c.reach s w).journeys =
    ((s.targetDurations w.arrival.stop).map (journeyAlong s w)).foldl (Pareto.insert (beats s))
      c.journeys := by
  unfold reach
  generalize s.targetDurations w.arrival.stop = ds
  induction ds generalizing c with
  | nil => rfl
  | cons d ds ih => rw [List.foldl_cons, ih, journeys_addJourney, List.map_cons, List.foldl_cons]

end Reaching

section Seeding

def beatsWay (s : Search) (v w : Way) : Bool :=
  s.dominates v.arrival w.arrival

theorem beatsWay_trans (u v w : Way) (huv : beatsWay s u v = true) (hvw : beatsWay s v w = true) :
    beatsWay s u w = true :=
  Search.dominates_trans huv hvw

/-- The way of a street leg from where the search begins. -/
def wayTo (s : Search) (time : Time) (iteration stop : Nat) (duration : Time) : Way where
  arrival := s.originArrival time iteration ⟨stop, duration⟩

theorem beatsWay_wayTo (hx : s.heading.IsExact) {iteration stop : Nat} {d e : Time} :
    beatsWay s (wayTo s time iteration stop d) (wayTo s time iteration stop e) = true ↔ d ≤ e := by
  simp only [beatsWay, wayTo, Search.dominates, StopArrival.dominates, Search.originArrival,
    Heading.betterOrEqual_advance hx, Bool.and_eq_true, Bool.or_eq_true, and_iff_left_iff_imp]
  exact fun hde => Or.inr (decide_eq_true (s.rates.walking_le_walking hde))

/-- Offering a way that begins with a street leg is adding it to the front of its stop. -/
theorem fronts_offer (hw : w.arrival.round = 0) (round stop : Nat) :
    (c.offer s w).fronts round stop = if round = 0 ∧ stop = w.arrival.stop then
      Pareto.insert (beatsWay s) (c.fronts round stop) w else c.fronts round stop := by
  have hprunes : c.prunes s w.arrival = false := by simp [prunes, hw]
  have hrival : c.rival? s w.arrival
      = Pareto.rival? (beatsWay s) (c.fronts 0 w.arrival.stop) w := by
    simp only [rival?, hw, Nat.zero_add, List.range_one, List.findSome?_cons, List.findSome?_nil]
    unfold Pareto.rival? beatsWay
    split <;> simp [*]
  cases hr : c.rival? s w.arrival with
  | some rival =>
      rw [offer_of_rejected (fate_of_rival hprunes hr), fronts_note]
      split
      case isTrue hplace =>
        rw [hrival] at hr
        rw [hplace.1, hplace.2, Pareto.insert_of_rival hr]
      case isFalse => rfl
  | none =>
      rw [offer_of_accepted (fate_of_none hprunes hr), place, fronts_note]
      simp only [keep, hw, eq_comm (a := (0 : Nat)), eq_comm (a := w.arrival.stop)]
      split
      case isTrue hplace =>
        rw [hrival] at hr
        rw [hplace.1, hplace.2, Pareto.insert_of_none hr, frontAfter, hw]
        rfl
      case isFalse => rfl

theorem fronts_seed (round stop : Nat) : (c.seed s time).fronts round stop =
    if round = 0 then ((StreetLeg.durationsAt s.origin stop).map (wayTo s time c.iteration stop)).foldl
      (Pareto.insert (beatsWay s)) (c.fronts round stop) else c.fronts round stop := by
  unfold seed
  generalize s.origin = legs
  induction legs generalizing c with
  | nil => simp [StreetLeg.durationsAt]
  | cons leg legs ih =>
      have hiteration := (agreeBut_offer (s := s) (c := c)
        ⟨s.originArrival time c.iteration leg, []⟩).iteration
      rw [List.foldl_cons, ih, hiteration, fronts_offer rfl]
      by_cases hround : round = 0
      · by_cases hstop : leg.stop = stop
        · subst hstop
          simp [hround, StreetLeg.durationsAt, Search.originArrival, wayTo]
        · have hother : stop ≠ leg.stop := Ne.symm hstop
          simp [hround, StreetLeg.durationsAt, Search.originArrival, hstop, hother]
      · simp [hround]

theorem seed_frame (time : Time) : (∀ n, 0 < n → (c.seed s time).reached n = c.reached n)
    ∧ (c.seed s time).journeys = c.journeys ∧ (c.seed s time).iteration = c.iteration := by
  unfold seed
  refine List.foldlRecOn _ _ (motive := fun c' : Chart => (∀ n, 0 < n → c'.reached n = c.reached n)
    ∧ c'.journeys = c.journeys ∧ c'.iteration = c.iteration) ⟨fun _ _ => rfl, rfl, rfl⟩ ?_
  intro c' h leg _
  have hframe := agreeBut_offer (s := s) (c := c') ⟨s.originArrival time c'.iteration leg, []⟩
  refine ⟨fun n hn => ?_, (journeys_offer ..).trans h.2.1, hframe.iteration.trans h.2.2⟩
  exact (hframe.reached n (Nat.ne_of_gt hn)).trans (h.1 n hn)

end Seeding

namespace Resembles

theorem fate (h : Resembles c c') (hs : s.SharesLegs s') : c'.fate s' a = c.fate s a := by
  have hprunes : c'.prunes s' a = c.prunes s a := by
    have hbound := hs.bound a
    obtain ⟨origin, target, watch, supervisor, rfl⟩ := hs.alike
    unfold prunes
    rw [h.journeys, hbound]
  have hrival : c'.rival? s' a = c.rival? s a := by
    unfold rival?
    rw [h.fronts, hs.dominates]
  unfold Chart.fate
  rw [hprunes, hrival]

theorem place (h : Resembles c c') (hs : s.SharesLegs s') (w : Way) :
    Resembles (c.place s w) (c'.place s' w) := by
  refine ⟨?_, fun hn => ?_, h.journeys, h.iteration⟩
  · simp only [Chart.place, fronts_note, keep, frontAfter, h.fronts, hs.dominates]
  · simp only [Chart.place, note, keep, h.reached hn]

/-- Of the street legs at the end only the shortest one counts at each stop. -/
theorem reach (hx : s.heading.IsExact) (h : Resembles c c') (hs : s.SharesLegs s') (w : Way) :
    Resembles (c.reach s w) (c'.reach s' w) := by
  have hsame : beats s' = beats s ∧ journeyAlong s' = journeyAlong s := by
    obtain ⟨origin, target, watch, supervisor, rfl⟩ := hs.alike
    exact ⟨rfl, rfl⟩
  obtain ⟨hf, hr, hi⟩ := reach_frame (s := s) (c := c) w
  obtain ⟨hf', hr', hi'⟩ := reach_frame (s := s') (c := c') w
  refine ⟨by rw [hf, hf', h.fronts], fun hn => by rw [hr, hr', h.reached hn], ?_,
    by rw [hi, hi', h.iteration]⟩
  rw [journeys_reach, journeys_reach, h.journeys, hsame.1, hsame.2]
  exact Pareto.foldl_insert_least beats_trans (beats_journeyAlong hx)
    (hs.targetDurations w.arrival.stop) c.journeys

theorem lockstep (hx : s.heading.IsExact) (hs : s.SharesLegs s') :
    Lockstep s s' (fun _ => True) Resembles where
  moves := by
    obtain ⟨origin, target, watch, supervisor, rfl⟩ := hs.alike
    exact ⟨_, _, _, _, _, _, _, _, _, rfl⟩
  iteration h := h.iteration
  fronts h _ := congrFun h.fronts _
  reached h _ hn := h.reached hn
  placed _ _ _ := trivial
  fate h _ := h.fate hs
  note _ _ h := ⟨h.fronts, h.reached, h.journeys, h.iteration⟩
  place h _ := h.place hs _
  reach h _ := h.reach hx hs _

/-- Of the street legs at the beginning only the shortest one counts at each stop. -/
theorem seed (hx : s.heading.IsExact) (h : Resembles c c') (hs : s.SharesLegs s') (time : Time) :
    Resembles (c.seed s time) (c'.seed s' time) := by
  have hsame : beatsWay s' = beatsWay s ∧ wayTo s' = wayTo s := by
    obtain ⟨origin, target, watch, supervisor, rfl⟩ := hs.alike
    exact ⟨rfl, rfl⟩
  obtain ⟨hr, hj, hi⟩ := seed_frame (s := s) (c := c) time
  obtain ⟨hr', hj', hi'⟩ := seed_frame (s := s') (c := c') time
  refine ⟨?_, fun hn => by rw [hr _ hn, hr' _ hn, h.reached hn], by rw [hj, hj', h.journeys],
    by rw [hi, hi', h.iteration]⟩
  funext round stop
  rw [fronts_seed, fronts_seed, h.fronts, h.iteration, hsame.1, hsame.2]
  rw [Pareto.foldl_insert_least beatsWay_trans (beatsWay_wayTo hx)
    (StreetLeg.min?_durationsAt hs.origin.1 hs.origin.2 stop)]

theorem iterate (hx : s.heading.IsExact) (h : Resembles c c') (hs : s.SharesLegs s') (time : Time) :
    Resembles (c.iterate s time) (c'.iterate s' time) := by
  have hbegin : Resembles c.begin c'.begin :=
    ⟨h.fronts, fun _ => rfl, h.journeys, congrArg (· + 1) h.iteration⟩
  have hrounds : s'.maxRounds = s.maxRounds := by
    obtain ⟨origin, target, watch, supervisor, rfl⟩ := hs.alike
    rfl
  unfold Chart.iterate Chart.rounds
  rw [hrounds]
  refine foldl_both (R := Resembles) _ (fun m hm _ _ h => ?_) (hbegin.seed hx hs time)
  exact (lockstep hx hs).round h trivial trivial (List.mem_range'_1.mp hm).1

end Resembles

end Chart

namespace Search

variable {s s' : Search} {p p' : Progress} {its its' : List Itinerary}

theorem journeys_of_sharesLegs (hx : s.heading.IsExact) (hs : s.SharesLegs s') :
    s'.chart.journeys = s.chart.journeys := by
  have htimes : s'.times = s.times := by
    obtain ⟨origin, target, watch, supervisor, rfl⟩ := hs.alike
    rfl
  have hempty : Chart.Resembles .empty .empty := ⟨rfl, fun _ => rfl, rfl, rfl⟩
  unfold chart
  rw [htimes]
  exact (foldl_both (R := Chart.Resembles) s.times (fun time _ _ _ h => h.iterate hx hs time)
    hempty).journeys

theorem itineraries_of_sharesLegs (hx : s.heading.IsExact) (h : s.SharesLegs s') (hs : s.WellFormed)
    (hs' : s'.WellFormed) (hrun : s.run = .ok (.complete, p)) (hrun' : s'.run = .ok (.complete, p'))
    (hits : s.itineraries p = .ok its) (hits' : s'.itineraries p' = .ok its') : its' = its := by
  have hjourneys := journeys_of_sharesLegs hx h
  obtain ⟨origin, target, watch, supervisor, rfl⟩ := h.alike
  exact itineraries_of_journeys hs hs' hjourneys hrun hrun' hits hits' ⟨rfl, rfl, rfl, rfl, rfl⟩
    rfl rfl

end Search

namespace Request

variable {r : Request} {t : Timetable} {settings : Settings} {access egress : List StreetLeg}

def withLegs (r : Request) (access egress : List StreetLeg) : Request :=
  { r with access := access, egress := egress }

theorem streetFault?_eq_none_iff : r.streetFault? t = none ↔ r.access ≠ [] ∧ r.egress ≠ []
    ∧ ∀ leg ∈ r.access ++ r.egress,
      leg.stop < t.numStops ∧ 0 ≤ leg.duration ∧ leg.duration ≤ secondsOfDay := by
  have hleg : ∀ leg, legFault? t leg = none ↔
      leg.stop < t.numStops ∧ 0 ≤ leg.duration ∧ leg.duration ≤ secondsOfDay := by
    intro leg
    simp only [legFault?, unknownStop?, durationFault?, Option.or_eq_none_iff, ite_eq_left_iff,
      ite_eq_right_iff, reduceCtorEq, imp_false, not_or, Int.not_lt, Decidable.not_not]
  unfold streetFault?
  cases r.access with
  | nil => simp
  | cons a as =>
      cases r.egress with
      | nil => simp
      | cons e es => simp [List.findSome?_eq_none_iff, hleg]

/-- Legs that vary those of an accepted request are accepted, unless they are too long. -/
theorem fault?_withLegs (haccess : StreetLeg.Varies r.access access)
    (hegress : StreetLeg.Varies r.egress egress)
    (hshort : ∀ leg ∈ access ++ egress, leg.duration ≤ secondsOfDay)
    (h : r.fault? settings t = none) : (r.withLegs access egress).fault? settings t = none := by
  simp only [fault?, Option.or_eq_none_iff] at h ⊢
  obtain ⟨hwindow, htime, hstreet, hrest⟩ := h
  refine ⟨hwindow, htime, ?_, hrest⟩
  rw [streetFault?_eq_none_iff] at hstreet ⊢
  obtain ⟨hsome, hsome', hlegs⟩ := hstreet
  have hcovered : ∀ {legs legs' : List StreetLeg}, StreetLeg.Varies legs legs' → legs ≠ [] →
      legs' ≠ [] := by
    rintro (_ | ⟨leg, legs⟩) legs' hvaries hne rfl
    · exact hne rfl
    · obtain ⟨known, hknown, -⟩ := hvaries.covers.2 leg (List.mem_cons_self ..)
      simp at hknown
  refine ⟨hcovered haccess hsome, hcovered hegress hsome', fun leg hleg => ?_⟩
  have hknown : ∃ known ∈ r.access ++ r.egress, known.stop = leg.stop
      ∧ known.duration ≤ leg.duration := by
    rcases List.mem_append.mp hleg with hleg | hleg
    · obtain ⟨known, hknown, hless⟩ := haccess.covers.1 leg hleg
      exact ⟨known, List.mem_append_left _ hknown, hless⟩
    · obtain ⟨known, hknown, hless⟩ := hegress.covers.1 leg hleg
      exact ⟨known, List.mem_append_right _ hknown, hless⟩
  obtain ⟨known, hmem, hstop, hduration⟩ := hknown
  obtain ⟨hlt, hnonneg, -⟩ := hlegs known hmem
  exact ⟨hstop ▸ hlt, Int.le_trans hnonneg hduration, hshort leg hleg⟩

end Request

namespace Router

variable {x : Router} {r : Request} {access egress : List StreetLeg} {watch : Option Watch}
  {supervisor : Supervisor} {s : Search}

theorem search_withLegs (haccess : StreetLeg.Varies r.access access)
    (hegress : StreetLeg.Varies r.egress egress)
    (hshort : ∀ leg ∈ access ++ egress, leg.duration ≤ secondsOfDay)
    (h : x.search r watch supervisor = .ok s) (watch' : Option Watch) (supervisor' : Supervisor) :
    ∃ s', x.search (r.withLegs access egress) watch' supervisor' = .ok s' ∧ s.SharesLegs s'
      ∧ s.origin ⊆ s'.origin ∧ s.target ⊆ s'.target := by
  obtain ⟨haccepted, dates, hdates, rfl⟩ := search_eq_ok_iff.mp h
  refine ⟨_, search_eq_ok_iff.mpr
    ⟨Request.fault?_withLegs haccess hegress hshort haccepted, dates, hdates, rfl⟩, ?_⟩
  have hlegs : ∀ {watch : Option Watch} {supervisor : Supervisor},
      let s := Search.ofRequest x.timetable x.snapshot x.settings r (r.limits x.settings) dates
        watch supervisor
      let s' := Search.ofRequest x.timetable x.snapshot x.settings (r.withLegs access egress)
        (r.limits x.settings) dates watch' supervisor'
      (StreetLeg.Varies s.origin s'.origin) ∧ StreetLeg.Varies s.target s'.target := by
    simp only [Search.ofRequest, Search.originOf, Search.targetOf, Request.withLegs]
    cases r.direction with
    | forward => exact ⟨haccess, hegress⟩
    | reverse => exact ⟨hegress, haccess⟩
  exact ⟨⟨⟨_, _, _, _, rfl⟩, hlegs.1.covers, hlegs.2.covers⟩, hlegs.1.subset, hlegs.2.subset⟩

end Router

namespace ThreeLines

/-- A longer way to where the first leg goes as well, and the other legs turned around. -/
def manyLegs : Request :=
  request.withLegs [⟨0, 30⟩, ⟨0, 0⟩, ⟨0, 0⟩] [⟨2, 0⟩, ⟨1, 0⟩]

theorem varies_access : StreetLeg.Varies request.access manyLegs.access :=
  .trans (.further (List.mem_singleton_self _) rfl (Int.le_refl _))
    (.further (List.mem_cons_self ..) rfl (by decide))

end ThreeLines

namespace LastStop

/-- A line that arrives in the last second that 32 bits tell apart. -/
def router : Router where
  timetable := (Builder.ofTrips ["A", "B"] "W" [ThreeLines.day]
    [ThreeLines.line "u" "u" [("A", 28800), ("B", greatestTime)]]).timetable (by decide +kernel)

theorem router_deployed : router.Deployed :=
  Router.deployed_of_assembled (Builder.assembled_ofTrips ..) _ {}

def request : Request where
  date := ThreeLines.day
  time := 28800
  searchWindow := some 60
  access := [⟨0, 0⟩]
  egress := [⟨1, 0⟩]

theorem varies_egress : StreetLeg.Varies request.egress [⟨1, 60⟩, ⟨1, 0⟩] :=
  .further (List.mem_singleton_self _) rfl (by decide)

end LastStop

end JourneyPlanner
