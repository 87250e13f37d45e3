import JourneyPlanner.Proofs.FollowUp

/-!
Rounds and iterations keep every way followed up. What is still open at any time are
the fresh ways of the last round: rides are followed in the round after theirs, and
walks at the end of their own.
-/

namespace JourneyPlanner
namespace Chart

/-- All ways were followed up, but for fresh ones walks only up to a round and rides only
below a round. Ways of the first round need no looking at for walks and street legs. -/
structure Followed (s : Search) (c : Chart) (start : Time) (walked ridden : Nat) : Prop where
  walked : ∀ {round stop : Nat} {w : Way}, w ∈ c.fronts round stop → 0 < round →
    round ≤ s.maxRounds → (w.arrival.iteration = c.iteration → round ≤ walked) →
      Walked s c start round w.arrival
  ended : ∀ {round stop : Nat} {w : Way}, w ∈ c.fronts round stop → 0 < round →
    Ended s c start w.arrival
  ridden : ∀ {round stop : Nat} {w : Way}, w ∈ c.fronts round stop → round < s.maxRounds →
    (w.arrival.iteration = c.iteration → round < ridden) → Ridden s c start round w.arrival

variable {s : Search} {times : List Time} {c : Chart} {start time : Time} {n : Nat}

theorem Followed.weaken {start' : Time} {m : Nat} (hx : s.heading.IsExact) (hf : Followed s c start n m)
    (hs : s.heading.betterOrEqual start' start = true) : Followed s c start' n m where
  walked hw hpos hle hfresh := (hf.walked hw hpos hle hfresh).weaken hx hs
  ended hw hpos := (hf.ended hw hpos).weaken hs
  ridden hw hlt hfresh := (hf.ridden hw hlt hfresh).weaken hx hs

theorem followed_empty (s : Search) (start : Time) (n m : Nat) : Followed s .empty start n m where
  walked hw := by simp [empty] at hw
  ended hw := by simp [empty] at hw
  ridden hw := by simp [empty] at hw

/-- Nothing is fresh when an iteration begins. -/
theorem followed_begin (hx : s.heading.IsExact) (hf : Followed s c start s.maxRounds s.maxRounds)
    (htime : s.heading.betterOrEqual time start = true) : Followed s c.begin time 0 0 where
  walked hw hpos hle _ :=
    ((hf.walked hw hpos hle fun _ => hle).weaken hx htime).improves (improves_begin c)
  ended hw hpos := ((hf.ended hw hpos).weaken htime).improves (improves_begin c)
  ridden hw hlt _ := ((hf.ridden hw hlt fun _ => hlt).weaken hx htime).improves (improves_begin c)

theorem mem_fronts_seed {round stop : Nat} {w : Way} (hw : w ∈ (c.seed s time).fronts round stop) :
    w ∈ c.fronts round stop ∨ ∃ leg ∈ s.origin, w = ⟨s.originArrival time c.iteration leg, []⟩ := by
  revert hw
  refine (List.foldlRecOn s.origin _ (motive := fun c' : Chart => c'.iteration = c.iteration
    ∧ (w ∈ c'.fronts round stop → w ∈ c.fronts round stop
      ∨ ∃ leg ∈ s.origin, w = ⟨s.originArrival time c.iteration leg, []⟩)) ⟨rfl, Or.inl⟩ ?_).2
  intro c' hc' leg hleg
  refine ⟨(agreeBut_offer _).iteration.trans hc'.1, fun hw => ?_⟩
  rcases mem_fronts_offer hw with rfl | hw
  · exact Or.inr ⟨leg, hleg, by rw [hc'.1]⟩
  · exact hc'.2 hw

theorem followed_seed (h : c.Sound s times) (ht : time ∈ times) (hf : Followed s c start 0 0) :
    Followed s (c.seed s time) start 0 0 := by
  have hframe := (sound_seed h ht).2
  have himproves := improves_seed (s := s) c time
  refine ⟨?_, ?_, ?_⟩
  · intro round stop w hw hpos hle hfresh
    rw [hframe.fronts round (by omega)] at hw
    rw [hframe.iteration] at hfresh
    exact (hf.walked hw hpos hle hfresh).improves himproves
  · intro round stop w hw hpos
    rw [hframe.fronts round (by omega)] at hw
    exact (hf.ended hw hpos).improves himproves
  · intro round stop w hw hlt hfresh
    rw [hframe.iteration] at hfresh
    rcases mem_fronts_seed hw with hw | ⟨leg, -, rfl⟩
    · exact (hf.ridden hw hlt hfresh).improves himproves
    · exact absurd (hfresh rfl) (Nat.not_lt_zero _)

theorem followed_transit (hs : s.WellTimed) (ho : s.IsOrderly)
    (hstart : ∀ time ∈ times, s.heading.betterOrEqual start time = true) (h : c.Sound s times)
    (hf : Followed s c start n n) : Followed s (c.transit s (n + 1)) start n (n + 1) := by
  have hframe := (sound_transit h (Nat.succ_pos n)).2
  have himproves := improves_transit (s := s) c (n + 1)
  have hold : ∀ {round stop : Nat} {w : Way}, w ∈ (c.transit s (n + 1)).fronts round stop →
      (w.arrival.iteration = c.iteration → round ≤ n) → w ∈ c.fronts round stop := by
    intro round stop w hw hfresh
    rcases mem_fronts_transit hs.exact hstart h (Nat.succ_pos n) hw with hw | ⟨hnow, -⟩
    · exact hw
    · have hle := hfresh hnow
      rwa [hframe.fronts round (by omega)] at hw
  refine ⟨?_, ?_, ?_⟩
  · intro round stop w hw hpos hle hfresh
    rw [hframe.iteration] at hfresh
    exact (hf.walked (hold hw hfresh) hpos hle hfresh).improves himproves
  · intro round stop w hw hpos
    rcases mem_fronts_transit hs.exact hstart h (Nat.succ_pos n) hw with hw | ⟨-, hended⟩
    · exact (hf.ended hw hpos).improves himproves
    · exact hended
  · intro round stop w hw hlt hfresh
    rw [hframe.iteration] at hfresh
    have hkept := hold hw fun hnow => Nat.lt_succ_iff.mp (hfresh hnow)
    by_cases hlast : w.arrival.iteration = c.iteration ∧ round = n
    · obtain ⟨hnow, rfl⟩ := hlast
      exact ridden_transit hs ho hstart (Nat.succ_pos round) h
        (List.mem_filter.mpr ⟨hkept, beq_iff_eq.mpr hnow⟩)
    · refine (hf.ridden hkept hlt fun hnow => ?_).improves himproves
      have hle := hfresh hnow
      have hne : round ≠ n := fun heq => hlast ⟨hnow, heq⟩
      omega

theorem followed_walk (hs : s.WellTimed) (hclosed : s.WalksClosed)
    (hstart : ∀ time ∈ times, s.heading.betterOrEqual start time = true) (h : c.Sound s times)
    (hn : 0 < n) (hrides : ∀ w ∈ c.reached n, w.arrival.isTransit = true)
    (hf : Followed s c start (n - 1) n) : Followed s (c.walk s n) start n n := by
  obtain ⟨hsound, hframe⟩ := sound_walk (n := n) h
  have himproves := improves_walk (s := s) c n
  obtain ⟨hnew, hfollowed⟩ := followed_strolls (n := n) hs hclosed
    (fun u (hu : u ∈ c.reached n) => ⟨(h.reached hu).1.originTime_better hs.exact hstart, (h.reached hu).2⟩)
    (fun u hu hcurrent => hf.ended hcurrent (by rw [(h.reached hu).2.1]; exact hn))
  refine ⟨?_, ?_, ?_⟩
  · intro round stop w hw hpos hle hfresh
    rw [hframe.iteration] at hfresh
    by_cases hlast : round = n
    · subst hlast
      rcases hnew hw with hold | ⟨-, -, hwalked, -⟩
      · by_cases hnow : w.arrival.iteration = c.iteration
        · have hreached := h.fresh hold hnow
          refine hfollowed w hreached (hrides w hreached) ?_
          obtain ⟨hround, hstop⟩ := hsound.placed hw
          rw [hround, hstop]
          exact hw
        · exact (hf.walked hold hpos hle fun heq => absurd heq hnow).improves himproves
      · exact hwalked
    · rw [hframe.fronts round hlast] at hw
      refine (hf.walked hw hpos hle fun hnow => ?_).improves himproves
      have hround := hfresh hnow
      omega
  · intro round stop w hw hpos
    rcases hnew hw with hold | ⟨-, -, -, hended⟩
    · exact (hf.ended hold hpos).improves himproves
    · exact hended
  · intro round stop w hw hlt hfresh
    rw [hframe.iteration] at hfresh
    rcases hnew hw with hold | ⟨-, hnow, -, -⟩
    · exact (hf.ridden hold hlt hfresh).improves himproves
    · have hround := hfresh hnow
      rw [hframe.fronts round (by omega)] at hw
      exact (hf.ridden hw hlt hfresh).improves himproves

theorem followed_round (hs : s.WellTimed) (ho : s.IsOrderly) (hclosed : s.WalksClosed)
    (hstart : ∀ time ∈ times, s.heading.betterOrEqual start time = true) (h : c.Sound s times)
    (hquiet : c.IsQuiet (n + 1)) (hf : Followed s c start n n) :
    Followed s (c.round s (n + 1)) start (n + 1) (n + 1) := by
  have hpos := Nat.succ_pos n
  refine followed_walk hs hclosed hstart (sound_transit h hpos).1 hpos (fun w hw => ?_)
    (followed_transit hs ho hstart h hf)
  exact isTransit_of_mem_reached_transit h hpos (hquiet (n + 1) (Nat.le_refl _)) hw

theorem followed_rounds (hs : s.WellTimed) (ho : s.IsOrderly) (hclosed : s.WalksClosed)
    (hstart : ∀ time ∈ times, s.heading.betterOrEqual start time = true) (count : Nat)
    (h : c.Sound s times) (hquiet : c.IsQuiet (n + 1)) (hf : Followed s c start n n) :
    Followed s (c.rounds s count (n + 1)) start (n + count) (n + count) := by
  induction count generalizing c n with
  | zero => exact hf
  | succ count ih =>
      rw [rounds_succ, show n + (count + 1) = n + 1 + count by omega]
      exact ih (sound_round h (Nat.succ_pos n)).1 (quiet_round h (Nat.succ_pos n) hquiet)
        (followed_round hs ho hclosed hstart h hquiet hf)

/-- After an iteration all ways were followed up. -/
theorem followed_iterate (hs : s.WellTimed) (ho : s.IsOrderly) (hclosed : s.WalksClosed)
    (hstart : ∀ t ∈ times, s.heading.betterOrEqual time t = true) (ht : time ∈ times)
    (hbefore : s.heading.betterOrEqual time start = true) (h : c.Sound s times)
    (hf : Followed s c start s.maxRounds s.maxRounds) :
    Followed s (c.iterate s time) time s.maxRounds s.maxRounds := by
  obtain ⟨hsound, hframe⟩ := sound_seed (sound_begin h) ht
  have hquiet : (c.begin.seed s time).IsQuiet (0 + 1) := by
    intro r hr
    rw [hframe.reached r (by omega)]
    rfl
  have hseeded := followed_seed (sound_begin h) ht (followed_begin hs.exact hf hbefore)
  have hrounds := followed_rounds hs ho hclosed hstart s.maxRounds hsound hquiet hseeded
  simp only [Nat.zero_add] at hrounds
  exact hrounds

/-- Every stop with a street leg where the search begins is reached by it. -/
def Seeded (s : Search) (c : Chart) (start : Time) : Prop :=
  ∀ leg ∈ s.origin, c.Knows s 0 leg.stop (s.heading.advance start leg.duration)

theorem seeded_seed (c : Chart) (time : Time) : Seeded s (c.seed s time) time := by
  intro leg hleg
  obtain ⟨before, after, hsplit⟩ := List.append_of_mem hleg
  rw [seed, hsplit, List.foldl_append, List.foldl_cons]
  refine (Improves.foldl (fun c _ _ => improves_offer c _) _).knows ?_
  exact knows_offer _ ⟨s.originArrival time _ leg, []⟩ rfl

end Chart
end JourneyPlanner
