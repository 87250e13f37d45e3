import JourneyPlanner.Proofs.Catching

/-!
What an iteration leaves behind. Every way found so far was followed up: all rides,
walks and street legs from it are covered. Ways of earlier iterations stay followed
up, so only fresh ones have to be looked at, one round after the other.
-/

namespace JourneyPlanner

/-- Where one can walk in two goes, or walk and then take a street leg, there is also
one way to do it that takes no longer. -/
structure Search.WalksClosed (s : Search) : Prop where
  onward : ∀ {stop : Nat} {k k' : Transfer}, k ∈ s.heading.walks s.timetable stop →
    k' ∈ s.heading.walks s.timetable k.target → k'.target ≠ stop →
      ∃ k'' ∈ s.heading.walks s.timetable stop, k''.target = k'.target
        ∧ k''.duration ≤ k.duration + k'.duration
  target : ∀ {stop : Nat} {k : Transfer} {d : Time}, k ∈ s.heading.walks s.timetable stop →
    d ∈ s.targetDurations k.target → ∃ d' ∈ s.targetDurations stop, d' ≤ k.duration + d

namespace Chart

/-- An arrival from which every walk is covered. -/
def Walked (s : Search) (c : Chart) (start : Time) (round : Nat) (a : StopArrival) : Prop :=
  ∀ k ∈ s.heading.walks s.timetable a.stop,
    c.Covers s start round k.target (s.heading.advance a.time k.duration)

/-- An arrival from which every street leg to where the search ends is served. -/
def Ended (s : Search) (c : Chart) (start : Time) (a : StopArrival) : Prop :=
  ∀ d ∈ s.targetDurations a.stop, c.Serves s start (s.heading.advance a.time d)

variable {s : Search} {times : List Time} {c c' : Chart} {start start' : Time} {w u : Way}
  {n m round stop : Nat} {a : StopArrival}

theorem Walked.improves (h : Improves s c c') (ha : Walked s c start round a) :
    Walked s c' start round a :=
  fun k hk => h.covers (ha k hk)

theorem Ended.improves (h : Improves s c c') (ha : Ended s c start a) : Ended s c' start a :=
  fun d hd => h.serves (ha d hd)

theorem Walked.weaken (hx : s.heading.IsExact) (hs : s.heading.betterOrEqual start' start = true)
    (ha : Walked s c start round a) : Walked s c start' round a :=
  fun k hk => (ha k hk).weaken hx hs (Nat.le_refl _) (s.heading.betterOrEqual_refl _)

theorem Ended.weaken (hs : s.heading.betterOrEqual start' start = true) (ha : Ended s c start a) :
    Ended s c start' a :=
  fun d hd => (ha d hd).weaken hs (s.heading.betterOrEqual_refl _)

theorem Ridden.weaken (hx : s.heading.IsExact)
    (hs : s.heading.betterOrEqual start' start = true) (ha : Ridden s c start round a) :
    Ridden s c start' round a :=
  fun v d i j stop boardCall call hgo hlimit =>
    (ha v d i j stop boardCall call hgo hlimit).weaken hx hs (Nat.le_refl _)
      (s.heading.betterOrEqual_refl _)

section NewWays

theorem mem_fronts_offer (h : w ∈ (c.offer s u).fronts round stop) :
    w = u ∨ w ∈ c.fronts round stop := by
  unfold offer at h
  split at h
  · exact Or.inr h
  · exact Or.inr h
  · exact (mem_fronts_keep h).imp_left And.left

/-- What is not accepted changes no fronts. -/
theorem settle_frame (hf : c.fate s u.arrival ≠ .accepted) :
    (c.settle s u).fronts = c.fronts ∧ (c.settle s u).reached = c.reached := by
  rw [settle_of_not_accepted hf, offer]
  split
  · exact ⟨rfl, rfl⟩
  · exact ⟨rfl, rfl⟩
  · exact absurd ‹_› hf

theorem mem_fronts_settle (h : w ∈ (c.settle s u).fronts round stop) :
    (w = u ∧ c.fate s u.arrival = .accepted) ∨ w ∈ c.fronts round stop := by
  by_cases hf : c.fate s u.arrival = .accepted
  · rw [settle_of_accepted hf, (reach_frame u).1] at h
    exact (mem_fronts_keep h).imp_left fun hw => ⟨hw.1, hf⟩
  · rw [(settle_frame hf).1] at h
    exact Or.inr h

theorem mem_reached_settle (h : w ∈ (c.settle s u).reached n) : w = u ∨ w ∈ c.reached n := by
  by_cases hf : c.fate s u.arrival = .accepted
  · rw [settle_of_accepted hf, (reach_frame u).2.1] at h
    have hkept : w ∈ (c.keep s u).reached n := h
    exact (mem_reached_keep.mp hkept).imp_left And.left
  · rw [(settle_frame hf).2] at h
    exact Or.inr h

/-- Ways found by going along the patterns are ended. -/
theorem mem_fronts_transit (hx : s.heading.IsExact)
    (hstart : ∀ time ∈ times, s.heading.betterOrEqual start time = true)
    (h : c.Sound s times) (hn : 0 < n) (hw : w ∈ (c.transit s n).fronts round stop) :
    w ∈ c.fronts round stop ∨ w.arrival.iteration = c.iteration
      ∧ Ended s (c.transit s n) start w.arrival := by
  have hkept : KeptBySettling s times c n fun c' => ∀ {round stop : Nat} {w : Way},
      w ∈ c'.fronts round stop → w ∈ c.fronts round stop ∨ w.arrival.iteration = c.iteration
        ∧ Ended s c' start w.arrival := by
    intro c' v u b position a _ _ hc' hrode round stop w hw
    have hu := hrode.found h hn
    rcases mem_fronts_settle hw with ⟨rfl, hf⟩ | hw
    · refine Or.inr ⟨hu.now, fun d hd => ?_⟩
      rw [settle_of_accepted hf]
      exact (serves_reach _ _ hd).weaken (hu.traced.originTime_better hx hstart)
        (s.heading.betterOrEqual_refl _)
    · exact (hc' hw).imp_right fun hnew => ⟨hnew.1, hnew.2.improves (improves_settle c' _)⟩
  exact (keeps_transit hkept h hn Or.inl).2.2 hw

theorem isTransit_of_mem_reached_transit (h : c.Sound s times) (hn : 0 < n)
    (hquiet : c.reached n = []) (hw : w ∈ (c.transit s n).reached n) :
    w.arrival.isTransit = true := by
  have hkept : KeptBySettling s times c n fun c' => ∀ {w : Way}, w ∈ c'.reached n →
      w.arrival.isTransit = true := by
    intro c' v u b position a _ _ hc' hrode w hw
    rcases mem_reached_settle hw with rfl | hw
    · exact (hrode.found h hn).ride
    · exact hc' hw
  refine (keeps_transit hkept h hn ?_).2.2 hw
  intro w hw
  simp [hquiet] at hw

end NewWays

section Strolling

theorem mem_fronts_stroll (h : w ∈ (c.stroll s u).fronts round stop) :
    w ∈ c.fronts round stop ∨ (u ∈ c.fronts u.arrival.round u.arrival.stop
      ∧ u.arrival.isTransit = true ∧ ∃ k ∈ s.heading.walks s.timetable u.arrival.stop,
        w = u.extend (s.walkArrival 0 u.arrival k)) := by
  unfold stroll at h
  split at h
  case isFalse => exact Or.inl h
  case isTrue hcurrent =>
    refine Or.imp_right (fun hw => ⟨hcurrent.1, hcurrent.2, hw⟩) ?_
    revert h
    refine List.foldlRecOn (s.heading.walks s.timetable u.arrival.stop) _
      (motive := fun c' : Chart => w ∈ c'.fronts round stop → w ∈ c.fronts round stop
        ∨ ∃ k ∈ s.heading.walks s.timetable u.arrival.stop,
          w = u.extend (s.walkArrival 0 u.arrival k)) Or.inl ?_
    intro c' hc' k hk hw
    exact (mem_fronts_offer hw).elim (fun heq => Or.inr ⟨k, hk, heq⟩) hc'

theorem iteration_stroll (c : Chart) (u : Way) : (c.stroll s u).iteration = c.iteration := by
  unfold stroll
  split
  · refine List.foldlRecOn _ _ (motive := fun c' : Chart => c'.iteration = c.iteration) rfl ?_
    exact fun c' hc' k _ => (agreeBut_offer _).iteration.trans hc'
  · rfl

theorem walked_stroll (hstart : s.heading.betterOrEqual start u.arrival.originTime = true)
    (hcurrent : u ∈ c.fronts u.arrival.round u.arrival.stop) (hride : u.arrival.isTransit = true) :
    Walked s (c.stroll s u) start u.arrival.round u.arrival := by
  intro k hk
  rw [stroll, if_pos ⟨hcurrent, hride⟩]
  obtain ⟨before, after, hsplit⟩ := List.append_of_mem hk
  rw [hsplit, List.foldl_append, List.foldl_cons]
  refine (Improves.foldl (fun c _ _ => improves_offer c _) _).covers ?_
  exact covers_offer _ (u.extend (s.walkArrival 0 u.arrival k)) hstart

/-- A walk after a walk, and a street leg after a walk, are covered from where the first
walk began. -/
theorem followed_walkArrival (hs : s.WellTimed) (hclosed : s.WalksClosed)
    (hu : c.Knows s round u.arrival.stop u.arrival.time)
    (hwalked : Walked s c start round u.arrival) (hended : Ended s c start u.arrival) {k : Transfer}
    (hk : k ∈ s.heading.walks s.timetable u.arrival.stop) :
    Walked s c start round (s.walkArrival 0 u.arrival k)
      ∧ Ended s c start (s.walkArrival 0 u.arrival k) := by
  have hduration := (hs.walks _ k hk).2
  constructor
  · intro k' hk'
    simp only [Search.walkArrival, Heading.advance_advance] at hk' ⊢
    by_cases hback : k'.target = u.arrival.stop
    · refine Or.inl (hback ▸ hu.weaken (Nat.le_refl _) ?_)
      exact Heading.le_advance hs.exact (Int.add_nonneg hduration (hs.walks _ k' hk').2)
    · obtain ⟨k'', hk'', htarget, hle⟩ := hclosed.onward hk hk' hback
      exact htarget ▸ (hwalked k'' hk'').weaken hs.exact (s.heading.betterOrEqual_refl _) (Nat.le_refl _)
        (Heading.advance_better hs.exact (s.heading.betterOrEqual_refl _) hle)
  · intro d hd
    simp only [Search.walkArrival, Heading.advance_advance] at hd ⊢
    obtain ⟨d', hd', hle⟩ := hclosed.target hk hd
    exact (hended d' hd').weaken (s.heading.betterOrEqual_refl _)
      (Heading.advance_better hs.exact (s.heading.betterOrEqual_refl _) hle)

/-- Walking on from a way adds nothing but walks, which are followed up already. -/
theorem followed_stroll (hs : s.WellTimed) (hclosed : s.WalksClosed)
    (hstart : s.heading.betterOrEqual start u.arrival.originTime = true)
    (hended : u ∈ c.fronts u.arrival.round u.arrival.stop → Ended s c start u.arrival)
    {round stop : Nat} {w : Way} (hw : w ∈ (c.stroll s u).fronts round stop) :
    w ∈ c.fronts round stop ∨ w.arrival.isTransit = false
      ∧ w.arrival.iteration = u.arrival.iteration
      ∧ Walked s (c.stroll s u) start u.arrival.round w.arrival
      ∧ Ended s (c.stroll s u) start w.arrival := by
  refine (mem_fronts_stroll hw).imp_right ?_
  rintro ⟨hcurrent, hride, k, hk, rfl⟩
  have hknows : c.Knows s u.arrival.round u.arrival.stop u.arrival.time :=
    ⟨u.arrival.round, Nat.le_refl _, u, hcurrent, s.heading.betterOrEqual_refl _⟩
  exact ⟨rfl, rfl, followed_walkArrival hs hclosed ((improves_stroll c u).knows hknows)
    (walked_stroll hstart hcurrent hride) ((hended hcurrent).improves (improves_stroll c u)) hk⟩

/-- Walking on from ways by trips follows them up, and the ways found by that. -/
theorem followed_strolls (hs : s.WellTimed) (hclosed : s.WalksClosed) {us : List Way}
    (hus : ∀ u ∈ us, s.heading.betterOrEqual start u.arrival.originTime = true
      ∧ u.arrival.round = n ∧ u.arrival.iteration = c.iteration)
    (hended : ∀ u ∈ us, u ∈ c.fronts u.arrival.round u.arrival.stop → Ended s c start u.arrival) :
    (∀ {round stop : Nat} {w : Way}, w ∈ (us.foldl (fun c u => c.stroll s u) c).fronts round stop →
        w ∈ c.fronts round stop ∨ w.arrival.isTransit = false ∧ w.arrival.iteration = c.iteration
          ∧ Walked s (us.foldl (fun c u => c.stroll s u) c) start n w.arrival
          ∧ Ended s (us.foldl (fun c u => c.stroll s u) c) start w.arrival)
      ∧ ∀ u ∈ us, u.arrival.isTransit = true →
        u ∈ (us.foldl (fun c u => c.stroll s u) c).fronts u.arrival.round u.arrival.stop →
          Walked s (us.foldl (fun c u => c.stroll s u) c) start n u.arrival := by
  induction us generalizing c with
  | nil => exact ⟨Or.inl, fun u hu => absurd hu (List.not_mem_nil)⟩
  | cons u us ih =>
      obtain ⟨hstart, hround, hnow⟩ := hus u (List.mem_cons_self ..)
      have hnew : ∀ {round stop : Nat} {w : Way}, w ∈ (c.stroll s u).fronts round stop →
          w ∈ c.fronts round stop ∨ w.arrival.isTransit = false ∧ w.arrival.iteration = c.iteration
            ∧ Walked s (c.stroll s u) start n w.arrival
            ∧ Ended s (c.stroll s u) start w.arrival := by
        intro round stop w hw
        have hstep := followed_stroll hs hclosed hstart (hended u (List.mem_cons_self ..)) hw
        rwa [hround, hnow] at hstep
      have hlater : Improves s (c.stroll s u) (us.foldl (fun c u => c.stroll s u) (c.stroll s u)) :=
        .foldl (fun c u _ => improves_stroll c u) _
      obtain ⟨hall, hfollowed⟩ := ih (c := c.stroll s u)
        (fun u' hu' => by
          rw [iteration_stroll]
          exact hus u' (List.mem_cons_of_mem _ hu'))
        (fun u' hu' hcurrent => by
          cases hnew hcurrent with
          | inl hcurrent =>
              exact (hended u' (List.mem_cons_of_mem _ hu') hcurrent).improves (improves_stroll c u)
          | inr hclosed => exact hclosed.2.2.2)
      rw [List.foldl_cons]
      constructor
      · intro round stop w hw
        cases hall hw with
        | inl hw =>
            exact (hnew hw).imp_right fun h =>
              ⟨h.1, h.2.1, h.2.2.1.improves hlater, h.2.2.2.improves hlater⟩
        | inr hw =>
            rw [iteration_stroll] at hw
            exact Or.inr hw
      · intro u' hu' hride hcurrent
        cases hu' with
        | head =>
            have hstays : u ∈ c.fronts u.arrival.round u.arrival.stop := by
              cases hall hcurrent with
              | inl hcurrent =>
                  cases hnew hcurrent with
                  | inl hcurrent => exact hcurrent
                  | inr hwalk => exact absurd hride (by simp [hwalk.1])
              | inr hwalk => exact absurd hride (by simp [hwalk.1])
            exact (hround ▸ walked_stroll hstart hstays hride).improves hlater
        | tail _ hu' => exact hfollowed u' hu' hride hcurrent

end Strolling
end Chart
end JourneyPlanner
