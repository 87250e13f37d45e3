import JourneyPlanner.Proofs.Traced

/-!
What is true of a chart at any time of a search: its ways came about as ways do,
they stand where they belong, and those found in the current iteration are listed
as reached. A round changes nothing but its own fronts and the journeys.
-/

namespace JourneyPlanner
namespace Chart

structure Sound (s : Search) (times : List Time) (c : Chart) : Prop where
  traced : ∀ {round stop : Nat} {w : Way}, w ∈ c.fronts round stop → w.Traced s times
  placed : ∀ {round stop : Nat} {w : Way}, w ∈ c.fronts round stop →
    w.arrival.round = round ∧ w.arrival.stop = stop
  past : ∀ {round stop : Nat} {w : Way}, w ∈ c.fronts round stop →
    w.arrival.iteration ≤ c.iteration
  fresh : ∀ {round stop : Nat} {w : Way}, w ∈ c.fronts round stop →
    w.arrival.iteration = c.iteration → w ∈ c.reached round
  reached : ∀ {round : Nat} {w : Way}, w ∈ c.reached round →
    w.Traced s times ∧ w.arrival.round = round ∧ w.arrival.iteration = c.iteration
  journey : ∀ {j : Journey}, j ∈ c.journeys → ∃ w duration, w.Traced s times
    ∧ w.arrival.isTransit = true ∧ duration ∈ s.targetDurations w.arrival.stop
    ∧ j = journeyAlong s w duration

/-- Everything but one round and the journeys stays as it is. -/
structure AgreeBut (round : Nat) (c c' : Chart) : Prop where
  fronts : ∀ r, r ≠ round → c'.fronts r = c.fronts r
  reached : ∀ r, r ≠ round → c'.reached r = c.reached r
  iteration : c'.iteration = c.iteration

variable {s : Search} {times : List Time} {c c' c'' : Chart} {w : Way} {n : Nat}

theorem AgreeBut.refl (n : Nat) (c : Chart) : AgreeBut n c c :=
  ⟨fun _ _ => rfl, fun _ _ => rfl, rfl⟩

theorem AgreeBut.trans (h : AgreeBut n c c') (h' : AgreeBut n c' c'') : AgreeBut n c c'' where
  fronts r hr := (h'.fronts r hr).trans (h.fronts r hr)
  reached r hr := (h'.reached r hr).trans (h.reached r hr)
  iteration := h'.iteration.trans h.iteration

section Frame

theorem fronts_note (rs : List Remark) : (c.note s rs).fronts = c.fronts :=
  rfl

theorem mem_fronts_keep {v : Way} {round stop : Nat} (hv : v ∈ (c.keep s w).fronts round stop) :
    (v = w ∧ w.arrival.round = round ∧ w.arrival.stop = stop) ∨ v ∈ c.fronts round stop := by
  simp only [keep, frontAfter] at hv
  split at hv
  case isTrue h =>
    rw [List.mem_append, List.mem_filter, List.mem_singleton, h.1, h.2] at hv
    rcases hv with ⟨hv, -⟩ | rfl
    · exact Or.inr hv
    · exact Or.inl ⟨rfl, h⟩
  case isFalse => exact Or.inr hv

theorem mem_reached_keep {v : Way} {round : Nat} :
    v ∈ (c.keep s w).reached round ↔ (v = w ∧ w.arrival.round = round) ∨ v ∈ c.reached round := by
  simp only [keep]
  split
  case isTrue h => simp [h, or_comm]
  case isFalse h => simp [h]

theorem agreeBut_place (w : Way) : AgreeBut w.arrival.round c (c.place s w) where
  fronts r hr := by
    funext stop
    simp only [place, note, keep]
    exact if_neg fun h => hr h.1.symm
  reached r hr := if_neg (Ne.symm hr)
  iteration := rfl

theorem agreeBut_offer (w : Way) : AgreeBut w.arrival.round c (c.offer s w) := by
  unfold offer
  split
  · exact .refl ..
  · exact ⟨fun _ _ => rfl, fun _ _ => rfl, rfl⟩
  · exact agreeBut_place w

/-- A journey changes no fronts. -/
theorem addJourney_frame (j : Journey) :
    (c.addJourney s j).fronts = c.fronts ∧ (c.addJourney s j).reached = c.reached
      ∧ (c.addJourney s j).iteration = c.iteration := by
  unfold addJourney
  split <;> exact ⟨rfl, rfl, rfl⟩

theorem reach_frame (w : Way) :
    (c.reach s w).fronts = c.fronts ∧ (c.reach s w).reached = c.reached
      ∧ (c.reach s w).iteration = c.iteration := by
  unfold reach
  refine List.foldlRecOn _ _ (motive := fun c' : Chart =>
    c'.fronts = c.fronts ∧ c'.reached = c.reached ∧ c'.iteration = c.iteration)
    ⟨rfl, rfl, rfl⟩ fun c' h d _ => ?_
  obtain ⟨hf, hr, hi⟩ := addJourney_frame (s := s) (c := c') (journeyAlong s w d)
  exact ⟨hf.trans h.1, hr.trans h.2.1, hi.trans h.2.2⟩

theorem agreeBut_settle (w : Way) : AgreeBut w.arrival.round c (c.settle s w) := by
  by_cases hf : c.fate s w.arrival = .accepted
  · rw [settle_of_accepted hf]
    obtain ⟨hfronts, hreached, hiteration⟩ := reach_frame (s := s) (c := c.place s w) w
    have h := agreeBut_place (s := s) (c := c) w
    exact ⟨fun r hr => by rw [hfronts, h.fronts r hr], fun r hr => by rw [hreached, h.reached r hr],
      hiteration.trans h.iteration⟩
  · rw [settle_of_not_accepted hf]
    exact agreeBut_offer w

end Frame

section Steps

theorem sound_empty (s : Search) (times : List Time) : empty.Sound s times where
  traced h := by simp [empty] at h
  placed h := by simp [empty] at h
  past h := by simp [empty] at h
  fresh h := by simp [empty] at h
  reached h := by simp [empty] at h
  journey h := by simp [empty] at h

theorem Sound.mono {times' : List Time} (h : c.Sound s times) (ht : times ⊆ times') :
    c.Sound s times' where
  traced hw := (h.traced hw).mono ht
  placed := h.placed
  past := h.past
  fresh := h.fresh
  reached hw := ⟨(h.reached hw).1.mono ht, (h.reached hw).2⟩
  journey hj := by
    obtain ⟨w, d, hw, rest⟩ := h.journey hj
    exact ⟨w, d, hw.mono ht, rest⟩

theorem sound_begin (h : c.Sound s times) : c.begin.Sound s times where
  traced := h.traced
  placed := h.placed
  past hw := Nat.le_succ_of_le (h.past hw)
  fresh hw hnow := by
    have hpast := h.past hw
    simp only [begin] at hnow
    omega
  reached hw := by simp [begin] at hw
  journey := h.journey

theorem sound_note (h : c.Sound s times) (rs : List Remark) : (c.note s rs).Sound s times :=
  ⟨h.traced, h.placed, h.past, h.fresh, h.reached, h.journey⟩

theorem sound_place (h : c.Sound s times) (hw : w.Traced s times)
    (hnow : w.arrival.iteration = c.iteration) : (c.place s w).Sound s times := by
  refine sound_note (c := c.keep s w) ⟨?_, ?_, ?_, ?_, ?_, h.journey⟩ _
  · intro round stop v hv
    rcases mem_fronts_keep hv with ⟨rfl, -⟩ | hv
    · exact hw
    · exact h.traced hv
  · intro round stop v hv
    rcases mem_fronts_keep hv with ⟨rfl, hplace⟩ | hv
    · exact hplace
    · exact h.placed hv
  · intro round stop v hv
    rcases mem_fronts_keep hv with ⟨rfl, -⟩ | hv
    · exact Nat.le_of_eq hnow
    · exact h.past hv
  · intro round stop v hv hfresh
    rw [mem_reached_keep]
    rcases mem_fronts_keep hv with ⟨rfl, hround, -⟩ | hv
    · exact Or.inl ⟨rfl, hround⟩
    · exact Or.inr (h.fresh hv hfresh)
  · intro round v hv
    rcases mem_reached_keep.mp hv with ⟨rfl, hround⟩ | hv
    · exact ⟨hw, hround, hnow⟩
    · exact h.reached hv

theorem sound_offer (h : c.Sound s times) (hw : w.Traced s times)
    (hnow : w.arrival.iteration = c.iteration) : (c.offer s w).Sound s times := by
  unfold offer
  split
  · exact h
  · exact sound_note h _
  · exact sound_place h hw hnow

theorem sound_addJourney (h : c.Sound s times) (hw : w.Traced s times)
    (hride : w.arrival.isTransit = true) {d : Time} (hd : d ∈ s.targetDurations w.arrival.stop) :
    (c.addJourney s (journeyAlong s w d)).Sound s times := by
  obtain ⟨hf, hr, hi⟩ := addJourney_frame (s := s) (c := c) (journeyAlong s w d)
  refine ⟨?_, ?_, ?_, ?_, ?_, ?_⟩
  · rw [hf]
    exact h.traced
  · rw [hf]
    exact h.placed
  · rw [hf, hi]
    exact h.past
  · rw [hf, hr, hi]
    exact h.fresh
  · rw [hr, hi]
    exact h.reached
  · intro j hj
    rw [journeys_addJourney] at hj
    rcases Pareto.mem_of_mem_insert hj with rfl | hj
    · exact ⟨w, d, hw, hride, hd, rfl⟩
    · exact h.journey hj

theorem sound_reach (h : c.Sound s times) (hw : w.Traced s times)
    (hride : w.arrival.isTransit = true) : (c.reach s w).Sound s times :=
  List.foldlRecOn _ _ h fun _ hc _ hd => sound_addJourney hc hw hride hd

theorem sound_settle (h : c.Sound s times) (hw : w.Traced s times)
    (hride : w.arrival.isTransit = true) (hnow : w.arrival.iteration = c.iteration) :
    (c.settle s w).Sound s times := by
  by_cases hf : c.fate s w.arrival = .accepted
  · rw [settle_of_accepted hf]
    exact sound_reach (sound_place h hw hnow) hw hride
  · rw [settle_of_not_accepted hf]
    exact sound_offer h hw hnow

/-- A trip that is caught after a fresh way of the round before and left at a position. -/
structure Rode (s : Search) (c : Chart) (n : Nat) (v : PatternView) (w : Way) (b : Search.Boarding)
    (position : Nat) (a : StopArrival) : Prop where
  fresh : w ∈ c.fresh (n - 1) w.arrival.stop
  catches : s.Catches v w b
  stop : v.stops[position]? = some a.stop
  order : s.heading.Precedes b.position position
  left : s.left? v n position a.stop c.iteration b = some a

/-- What leaving a trip leads to. -/
structure Found (s : Search) (times : List Time) (c : Chart) (n : Nat) (w : Way) : Prop where
  traced : w.Traced s times
  ride : w.arrival.isTransit = true
  round : w.arrival.round = n
  now : w.arrival.iteration = c.iteration

theorem Rode.found (h : c.Sound s times) (hn : 0 < n) {v : PatternView} {b : Search.Boarding}
    {position : Nat} {a : StopArrival} (hr : Rode s c n v w b position a) :
    Found s times c n (w.extend a) := by
  obtain ⟨hround, -, hnow, hride⟩ := Search.left?_round hr.left
  have hmem := (List.mem_filter.mp hr.fresh).1
  have hbefore : w.arrival.round + 1 = n := by
    rw [(h.placed hmem).1]
    omega
  exact ⟨.ride (h.traced hmem) hr.catches hr.stop hr.order (hbefore ▸ hr.left), hride, hround, hnow⟩

/-- What leaving trips at the stops of a pattern does not change. -/
def KeptBySettling (s : Search) (times : List Time) (c : Chart) (n : Nat) (P : Chart → Prop) : Prop :=
  ∀ {c' : Chart} {v : PatternView} {w : Way} {b : Search.Boarding} {position : Nat} {a : StopArrival},
    c'.Sound s times → AgreeBut n c c' → P c' → Rode s c n v w b position a →
      P (c'.settle s (w.extend a))

/-- Trips caught so far while going along a pattern, by positions already passed. -/
def Rides (s : Search) (c : Chart) (v : PatternView) (n : Nat) (passed : Nat → Prop)
    (onboard : List (Way × Search.Boarding)) : Prop :=
  ∀ e ∈ onboard, e.1 ∈ c.fresh (n - 1) e.1.arrival.stop ∧ s.Catches v e.1 e.2 ∧ passed e.2.position

section Settling

variable {P : Chart → Prop}

theorem keeps_alight (hP : KeptBySettling s times c n P) (h : c.Sound s times) (hn : 0 < n)
    (hs : c'.Sound s times) (ha : AgreeBut n c c') (hc : P c') {v : PatternView} {position stop : Nat}
    {e : Way × Search.Boarding} (hfresh : e.1 ∈ c.fresh (n - 1) e.1.arrival.stop)
    (hcatch : s.Catches v e.1 e.2) (horder : s.heading.Precedes e.2.position position)
    (hstop : v.stops[position]? = some stop) :
    (c'.alight s v n position stop e).Sound s times ∧ AgreeBut n c (c'.alight s v n position stop e)
      ∧ P (c'.alight s v n position stop e) := by
  unfold alight
  split
  case h_1 a hleft =>
    obtain ⟨-, rfl, -, -⟩ := Search.left?_round hleft
    have hrode : Rode s c n v e.1 e.2 position a := ⟨hfresh, hcatch, hstop, horder, ha.iteration ▸ hleft⟩
    have hfound := hrode.found h hn
    have hframe := agreeBut_settle (s := s) (c := c') (e.1.extend a)
    rw [hfound.round] at hframe
    exact ⟨sound_settle hs hfound.traced hfound.ride (hfound.now.trans ha.iteration.symm),
      ha.trans hframe, hP hs ha hc hrode⟩
  case h_2 => exact ⟨hs, ha, hc⟩

theorem keeps_alightAll (hP : KeptBySettling s times c n P) (h : c.Sound s times) (hn : 0 < n)
    (hs : c'.Sound s times) (ha : AgreeBut n c c') (hc : P c') {v : PatternView} {position stop : Nat}
    {onboard : List (Way × Search.Boarding)}
    (hb : Rides s c v n (s.heading.Precedes · position) onboard)
    (hstop : v.stops[position]? = some stop) :
    (onboard.foldl (fun c b => c.alight s v n position stop b) c').Sound s times
      ∧ AgreeBut n c (onboard.foldl (fun c b => c.alight s v n position stop b) c')
      ∧ P (onboard.foldl (fun c b => c.alight s v n position stop b) c') := by
  refine List.foldlRecOn onboard _
    (motive := fun c' => c'.Sound s times ∧ AgreeBut n c c' ∧ P c') ⟨hs, ha, hc⟩ ?_
  intro c' hc' e he
  obtain ⟨hfresh, hcatch, horder⟩ := hb e he
  exact keeps_alight hP h hn hc'.1 hc'.2.1 hc'.2.2 hfresh hcatch horder hstop

theorem fresh_of_agreeBut (h : AgreeBut n c c') {round : Nat} (hr : round ≠ n) (stop : Nat) :
    c'.fresh round stop = c.fresh round stop := by
  simp only [fresh, h.fronts round hr, h.iteration]

/-- Trips caught at a stop after fresh ways to it. -/
theorem rides_caught (h : c.Sound s times) {v : PatternView} (hv : v ∈ s.viewList)
    {position stop : Nat} (hstop : v.stops[position]? = some stop) (hn : 0 < n) :
    Rides s c v n (· = position) ((c.fresh (n - 1) stop).filterMap (s.caught? v n position)) := by
  intro e he
  obtain ⟨w, hw, hcaught⟩ := List.mem_filterMap.mp he
  obtain ⟨hround, hplace⟩ := h.placed (List.mem_filter.mp hw).1
  obtain ⟨w', b⟩ := e
  obtain rfl : w' = w := Search.caught?_way hcaught
  have hposition := Search.caught?_position hcaught
  have hn' : w'.arrival.round + 1 = n := by omega
  refine ⟨hplace.symm ▸ hw, ⟨hv, ?_, ?_⟩, hposition⟩
  · rw [hposition, hplace]
    exact hstop
  · rw [hn', hposition]
    exact hcaught

theorem keeps_scanStop (hP : KeptBySettling s times c n P) (h : c.Sound s times) (hn : 0 < n)
    (hs : c'.Sound s times) (ha : AgreeBut n c c') (hc : P c') {v : PatternView} (hv : v ∈ s.viewList)
    {onboard : List (Way × Search.Boarding)} {entry : Nat × Nat}
    (hb : Rides s c v n (s.heading.Precedes · entry.2) onboard)
    (hstop : v.stops[entry.2]? = some entry.1) :
    ((scanStop s v n (c', onboard) entry).1.Sound s times
      ∧ AgreeBut n c (scanStop s v n (c', onboard) entry).1 ∧ P (scanStop s v n (c', onboard) entry).1)
      ∧ Rides s c v n (fun i => s.heading.Precedes i entry.2 ∨ i = entry.2)
        (scanStop s v n (c', onboard) entry).2 := by
  unfold scanStop
  split
  · have hkept := keeps_alightAll hP h hn hs ha hc hb hstop
    refine ⟨hkept, fun e he => ?_⟩
    cases List.mem_append.mp he with
    | inl he =>
        obtain ⟨hfresh, hcatch, horder⟩ := hb e he
        exact ⟨hfresh, hcatch, Or.inl horder⟩
    | inr he =>
        rw [fresh_of_agreeBut hkept.2.1 (by omega)] at he
        obtain ⟨hfresh, hcatch, horder⟩ := rides_caught h hv hstop hn e he
        exact ⟨hfresh, hcatch, Or.inr horder⟩
  · refine ⟨⟨hs, ha, hc⟩, fun e he => ?_⟩
    obtain ⟨hfresh, hcatch, horder⟩ := hb e he
    exact ⟨hfresh, hcatch, Or.inl horder⟩

/-- At a later position all that was caught before or at an earlier one is on board. -/
theorem Rides.later {v : PatternView} {i j : Nat} {onboard : List (Way × Search.Boarding)}
    (h : Rides s c v n (fun k => s.heading.Precedes k i ∨ k = i) onboard)
    (hij : s.heading.Precedes i j) : Rides s c v n (s.heading.Precedes · j) onboard := by
  intro e he
  obtain ⟨hfresh, hcatch, hpassed⟩ := h e he
  refine ⟨hfresh, hcatch, ?_⟩
  cases hpassed with
  | inl hpassed => exact hpassed.trans hij
  | inr hpassed => exact hpassed ▸ hij

theorem keeps_scanStops (hP : KeptBySettling s times c n P) (h : c.Sound s times) (hn : 0 < n)
    (hs : c'.Sound s times) (ha : AgreeBut n c c') (hc : P c') {v : PatternView} (hv : v ∈ s.viewList)
    {onboard : List (Way × Search.Boarding)} {entries : List (Nat × Nat)}
    (hpairs : entries.Pairwise fun e f => s.heading.Precedes e.2 f.2)
    (hstops : ∀ e ∈ entries, v.stops[e.2]? = some e.1)
    (hb : ∀ e ∈ entries, Rides s c v n (s.heading.Precedes · e.2) onboard) :
    (entries.foldl (scanStop s v n) (c', onboard)).1.Sound s times
      ∧ AgreeBut n c (entries.foldl (scanStop s v n) (c', onboard)).1
      ∧ P (entries.foldl (scanStop s v n) (c', onboard)).1 := by
  induction entries generalizing c' onboard with
  | nil => exact ⟨hs, ha, hc⟩
  | cons entry entries ih =>
      rw [List.pairwise_cons] at hpairs
      obtain ⟨⟨hsound, hframe, hkept⟩, hrides⟩ := keeps_scanStop hP h hn hs ha hc hv
        (hb entry (List.mem_cons_self ..)) (hstops entry (List.mem_cons_self ..))
      have hlater : ∀ e ∈ entries, Rides s c v n (s.heading.Precedes · e.2)
          (scanStop s v n (c', onboard) entry).2 := fun e he => hrides.later (hpairs.1 e he)
      exact ih hsound hframe hkept hpairs.2 (fun e he => hstops e (List.mem_cons_of_mem _ he)) hlater

theorem keeps_scan (hP : KeptBySettling s times c n P) (h : c.Sound s times) (hn : 0 < n)
    (hs : c'.Sound s times) (ha : AgreeBut n c c') (hc : P c') {v : PatternView}
    (hv : v ∈ s.viewList) : (c'.scan s n v).Sound s times ∧ AgreeBut n c (c'.scan s n v)
      ∧ P (c'.scan s n v) := by
  refine keeps_scanStops hP h hn hs ha hc hv (s.heading.pairwise_inOrder _) ?_ ?_
  · intro e he
    have := Heading.mem_inOrder.mp he
    simpa using this
  · intro e _ ride hride
    exact absurd hride (List.not_mem_nil)

theorem keeps_transit (hP : KeptBySettling s times c n P) (h : c.Sound s times) (hn : 0 < n)
    (hc : P c) : (c.transit s n).Sound s times ∧ AgreeBut n c (c.transit s n)
      ∧ P (c.transit s n) := by
  refine List.foldlRecOn s.viewList _
    (motive := fun c' => c'.Sound s times ∧ AgreeBut n c c' ∧ P c') ⟨h, .refl .., hc⟩ ?_
  intro c' hc' v hv
  exact keeps_scan hP h hn hc'.1 hc'.2.1 hc'.2.2 hv

end Settling

theorem sound_scan (h : c.Sound s times) {v : PatternView} (hv : v ∈ s.viewList) (hn : 0 < n) :
    (c.scan s n v).Sound s times ∧ AgreeBut n c (c.scan s n v) := by
  have hkept := keeps_scan (P := fun _ => True) (fun _ _ _ _ => trivial) h hn h (.refl ..) trivial hv
  exact ⟨hkept.1, hkept.2.1⟩

theorem sound_transit (h : c.Sound s times) (hn : 0 < n) :
    (c.transit s n).Sound s times ∧ AgreeBut n c (c.transit s n) := by
  have hkept := keeps_transit (P := fun _ => True) (fun _ _ _ _ => trivial) h hn trivial
  exact ⟨hkept.1, hkept.2.1⟩

theorem sound_stroll (h : c.Sound s times) (hw : w.Traced s times)
    (hround : w.arrival.round = n) (hnow : w.arrival.iteration = c.iteration) :
    (c.stroll s w).Sound s times ∧ AgreeBut n c (c.stroll s w) := by
  unfold stroll
  split
  case isTrue hride =>
    refine List.foldlRecOn _ _
      (motive := fun c' => c'.Sound s times ∧ AgreeBut n c c') ⟨h, .refl ..⟩ ?_
    intro c' hc' k hk
    refine ⟨sound_offer hc'.1 (.walk hw hride.2 hk) ?_, hc'.2.trans ?_⟩
    · exact hnow.trans hc'.2.iteration.symm
    · have hframe := agreeBut_offer (s := s) (c := c') (w.extend (s.walkArrival 0 w.arrival k))
      exact hround ▸ hframe
  case isFalse => exact ⟨h, .refl ..⟩

theorem sound_walk (h : c.Sound s times) :
    (c.walk s n).Sound s times ∧ AgreeBut n c (c.walk s n) := by
  refine List.foldlRecOn (c.reached n) _
    (motive := fun c' => c'.Sound s times ∧ AgreeBut n c c') ⟨h, .refl ..⟩ ?_
  intro c' hc' w hw
  obtain ⟨htraced, hround, hnow⟩ := h.reached hw
  obtain ⟨hsound, hframe⟩ :=
    sound_stroll hc'.1 htraced hround (hnow.trans hc'.2.iteration.symm)
  exact ⟨hsound, hc'.2.trans hframe⟩

theorem sound_round (h : c.Sound s times) (hn : 0 < n) :
    (c.round s n).Sound s times ∧ AgreeBut n c (c.round s n) := by
  obtain ⟨hsound, hframe⟩ := sound_transit h hn
  obtain ⟨hsound', hframe'⟩ := sound_walk (n := n) hsound
  exact ⟨hsound', hframe.trans hframe'⟩

theorem rounds_succ (count first : Nat) :
    c.rounds s (count + 1) first = (c.round s first).rounds s count (first + 1) :=
  rfl

theorem sound_rounds (h : c.Sound s times) (count : Nat) {first : Nat} (hn : 0 < first) :
    (c.rounds s count first).Sound s times := by
  induction count generalizing c first with
  | zero => exact h
  | succ count ih =>
      rw [rounds_succ]
      exact ih (sound_round h hn).1 (Nat.succ_pos first)

/-- Going along a pattern where nothing is caught changes nothing. -/
theorem scan_eq_self {v : PatternView}
    (h : ∀ stop ∈ v.stops.toList, ∀ position,
      (c.fresh (n - 1) stop).filterMap (s.caught? v n position) = []) :
    c.scan s n v = c := by
  unfold scan
  have hentries : ∀ entry ∈ s.heading.inOrder v.stops.toList, entry.1 ∈ v.stops.toList := by
    intro entry hentry
    unfold Heading.inOrder at hentry
    split at hentry
    · exact List.fst_mem_of_mem_zipIdx hentry
    · exact List.fst_mem_of_mem_zipIdx (List.mem_reverse.mp hentry)
  revert hentries
  induction s.heading.inOrder v.stops.toList with
  | nil => exact fun _ => rfl
  | cons entry entries ih =>
      intro hentries
      have hstep : scanStop s v n (c, []) entry = (c, []) := by
        unfold scanStop
        split
        · exact congrArg (Prod.mk c) (h entry.1 (hentries entry (List.mem_cons_self ..)) entry.2)
        · rfl
      rw [List.foldl_cons, hstep]
      exact ih fun e he => hentries e (List.mem_cons_of_mem _ he)

/-- Nothing was reached from a round on. -/
def IsQuiet (n : Nat) (c : Chart) : Prop :=
  ∀ r, n ≤ r → c.reached r = []

theorem quiet_round (h : c.Sound s times) (hn : 0 < n) (hquiet : c.IsQuiet n) :
    (c.round s n).IsQuiet (n + 1) := by
  intro r hr
  rw [(sound_round h hn).2.reached r (by omega)]
  exact hquiet r (by omega)

theorem fresh_of_quiet (h : c.Sound s times) (hquiet : c.IsQuiet n) {round : Nat} (hr : n ≤ round)
    (stop : Nat) : c.fresh round stop = [] := by
  refine List.eq_nil_iff_forall_not_mem.mpr fun w hw => ?_
  obtain ⟨hmem, hnow⟩ := List.mem_filter.mp hw
  have hreached := h.fresh hmem (eq_of_beq hnow)
  simp [hquiet round hr] at hreached

/-- A round after one that found nothing new finds nothing either. -/
theorem round_of_quiet (h : c.Sound s times) (hn : 0 < n) (hquiet : c.IsQuiet (n - 1)) :
    c.round s n = c := by
  have htransit : c.transit s n = c := by
    refine List.foldlRecOn s.viewList _ (motive := fun c' => c' = c) rfl ?_
    intro c' hc' v _
    subst hc'
    refine scan_eq_self fun stop _ position => ?_
    rw [fresh_of_quiet h hquiet (Nat.le_refl _), List.filterMap_nil]
  rw [round, htransit, walk, hquiet n (by omega), List.foldl_nil]

theorem rounds_of_quiet (h : c.Sound s times) (hn : 0 < n) (hquiet : c.IsQuiet (n - 1))
    (count : Nat) : c.rounds s count n = c := by
  induction count generalizing n with
  | zero => rfl
  | succ count ih =>
      rw [rounds_succ, round_of_quiet h hn hquiet]
      exact ih (Nat.succ_pos n) fun r hr => hquiet r (by omega)

theorem sound_seed (h : c.Sound s times) {time : Time} (ht : time ∈ times) :
    (c.seed s time).Sound s times ∧ AgreeBut 0 c (c.seed s time) := by
  refine List.foldlRecOn s.origin _
    (motive := fun c' => c'.Sound s times ∧ AgreeBut 0 c c') ⟨h, .refl ..⟩ ?_
  intro c' hc' leg hleg
  refine ⟨sound_offer hc'.1 (.begin c'.iteration hleg ht) rfl, hc'.2.trans ?_⟩
  exact agreeBut_offer (s := s) (c := c') ⟨s.originArrival time c'.iteration leg, []⟩

theorem sound_iterate (h : c.Sound s times) {time : Time} (ht : time ∈ times) :
    (c.iterate s time).Sound s times :=
  sound_rounds (sound_seed (sound_begin h) ht).1 s.maxRounds Nat.one_pos

end Steps
end Chart
end JourneyPlanner
