import JourneyPlanner.Proofs.Boarding
import JourneyPlanner.Proofs.ChartSound

/-!
What a chart offers a traveller: stops reached in time, and journeys that leave late
enough and end early enough. No step of a search takes any of this away, and an
arrival that was offered is covered by something as good. Sums of times keep the order
of times only if they are exact.
-/

namespace JourneyPlanner

namespace Heading

variable {h : Heading} {a b c : Time}

theorem advance_better (hx : h.IsExact) (hab : h.betterOrEqual a b = true) {d e : Time}
    (hde : d ≤ e) : h.betterOrEqual (h.advance a d) (h.advance b e) = true := by
  unfold betterOrEqual advance at *
  cases hd : h.direction <;> simp only [hd, hx.keep, decide_eq_true_eq] at hab ⊢
  · exact Int.add_le_add hab hde
  · exact Int.sub_le_sub hab hde

theorem le_advance (hx : h.IsExact) {d : Time} (hd : 0 ≤ d) :
    h.betterOrEqual a (h.advance a d) = true := by
  unfold betterOrEqual advance
  cases h.direction <;> simp only [hx.keep, decide_eq_true_eq]
  · exact Int.le_add_of_nonneg_right hd
  · exact Int.sub_le_self a hd

theorem boardLimit_better (hx : h.IsExact) (hab : h.betterOrEqual a b = true) :
    h.betterOrEqual (h.boardLimit a) (h.boardLimit b) = true := by
  unfold betterOrEqual boardLimit at *
  cases hd : h.direction <;> simp only [hd, hx.keep, decide_eq_true_eq] at hab ⊢
  · exact Int.add_le_add_right hab _
  · exact hab

/-- Who catches a trip after a street leg left the origin in time. -/
theorem originTime_better (hx : h.IsExact) {time duration : Time}
    (hboard : h.betterOrEqual (h.boardLimit (h.advance time duration)) a = true) :
    h.betterOrEqual time (h.originTime a duration) = true := by
  unfold betterOrEqual boardLimit advance originTime at *
  cases hd : h.direction <;> simp only [hd, hx.keep, decide_eq_true_eq] at hboard ⊢ <;> grind

end Heading

namespace Chart

/-- A stop was reached by a time, with no more than so many rides. -/
def Knows (s : Search) (c : Chart) (round stop : Nat) (time : Time) : Prop :=
  ∃ r, r ≤ round ∧ ∃ w ∈ c.fronts r stop, s.heading.betterOrEqual w.arrival.time time = true

/-- There is a journey that leaves from a time on and ends by another one. -/
def Serves (s : Search) (c : Chart) (start time : Time) : Prop :=
  ∃ j ∈ c.journeys, s.heading.betterOrEqual start j.ending.merits.originTime = true
    ∧ s.heading.betterOrEqual j.ending.merits.time time = true

/-- There is a journey that dominates something. -/
def Beats (s : Search) (c : Chart) (m : Merits) : Prop :=
  ∃ j ∈ c.journeys, Merits.dominates s.heading s.policy j.ending.merits m = true

/-- A stop was reached by a time, or all that could come of that is served. -/
def Covers (s : Search) (c : Chart) (start : Time) (round stop : Nat) (time : Time) : Prop :=
  c.Knows s round stop time ∨ c.Serves s start (s.heading.advance time s.leastDuration)

/-- Whatever a chart offers another one offers too, what was reported stays so, and no journey
comes to dominate another one that stays. -/
structure Improves (s : Search) (c c' : Chart) : Prop where
  knows : ∀ {round stop : Nat} {time : Time}, c.Knows s round stop time → c'.Knows s round stop time
  serves : ∀ {start time : Time}, c.Serves s start time → c'.Serves s start time
  beats : ∀ {m : Merits}, c.Beats s m → c'.Beats s m
  log : c.log <+: c'.log
  front : Pareto.IsFront (Chart.beats s) c.journeys → Pareto.IsFront (Chart.beats s) c'.journeys

variable {s : Search} {c c' c'' : Chart} {w : Way} {start start' time time' : Time}
  {round round' stop : Nat}

theorem Knows.weaken (h : c.Knows s round stop time) (hr : round ≤ round')
    (ht : s.heading.betterOrEqual time time' = true) : c.Knows s round' stop time' := by
  obtain ⟨r, hle, w, hw, hbetter⟩ := h
  exact ⟨r, Nat.le_trans hle hr, w, hw, s.heading.betterOrEqual_trans hbetter ht⟩

theorem Serves.weaken (h : c.Serves s start time)
    (hs : s.heading.betterOrEqual start' start = true)
    (ht : s.heading.betterOrEqual time time' = true) : c.Serves s start' time' := by
  obtain ⟨j, hj, hleaves, hends⟩ := h
  exact ⟨j, hj, s.heading.betterOrEqual_trans hs hleaves, s.heading.betterOrEqual_trans hends ht⟩

theorem Covers.weaken (hx : s.heading.IsExact) (h : c.Covers s start round stop time)
    (hs : s.heading.betterOrEqual start' start = true) (hr : round ≤ round')
    (ht : s.heading.betterOrEqual time time' = true) : c.Covers s start' round' stop time' := by
  cases h with
  | inl h => exact Or.inl (h.weaken hr ht)
  | inr h => exact Or.inr (h.weaken hs (Heading.advance_better hx ht (Int.le_refl _)))

theorem Improves.refl (s : Search) (c : Chart) : Improves s c c :=
  ⟨id, id, id, List.prefix_refl _, id⟩

theorem Improves.trans (h : Improves s c c') (h' : Improves s c' c'') : Improves s c c'' where
  knows hk := h'.knows (h.knows hk)
  serves hs := h'.serves (h.serves hs)
  beats hb := h'.beats (h.beats hb)
  log := h.log.trans h'.log
  front hf := h'.front (h.front hf)

theorem Improves.covers (h : Improves s c c') (hc : c.Covers s start round stop time) :
    c'.Covers s start round stop time :=
  hc.imp h.knows h.serves

theorem Improves.foldl {α : Type} {f : Chart → α → Chart} {xs : List α}
    (hf : ∀ c x, x ∈ xs → Improves s c (f c x)) (c : Chart) : Improves s c (xs.foldl f c) :=
  List.foldlRecOn xs f (motive := fun c' => Improves s c c') (.refl s c) fun _ hc x hx =>
    hc.trans (hf _ x hx)

end Chart

namespace Search

theorem better_of_dominates {s : Search} {a b : StopArrival} (h : s.dominates a b = true) :
    s.heading.betterOrEqual a.time b.time = true := by
  simp only [dominates, StopArrival.dominates, Bool.and_eq_true] at h
  exact h.1

theorem leastDuration_le {s : Search} {stop : Nat} {d : Time} (hd : d ∈ s.targetDurations stop) :
    s.leastDuration ≤ d := by
  have hmem : d ∈ s.target.map (·.duration) := by
    simp only [targetDurations, List.mem_map, List.mem_filter] at hd ⊢
    obtain ⟨leg, ⟨hleg, -⟩, rfl⟩ := hd
    exact ⟨leg, hleg, rfl⟩
  unfold leastDuration
  cases hmin : (s.target.map (·.duration)).min? with
  | none => simp [List.min?_eq_none_iff.mp hmin] at hmem
  | some least => exact (List.min?_eq_some_iff.mp hmin).2 d hmem

end Search

namespace Merits

theorem dominates_refl (h : Heading) (p : DominancePolicy) (a : Merits) :
    dominates h p a a = true := by
  simp [dominates, Heading.betterOrEqual_refl]

theorem dominates_trans {h : Heading} {p : DominancePolicy} {a b c : Merits}
    (hab : dominates h p a b = true) (hbc : dominates h p b c = true) :
    dominates h p a c = true := by
  simp only [dominates, Bool.and_eq_true, Bool.or_eq_true, decide_eq_true_eq] at *
  obtain ⟨⟨⟨horigin, htime⟩, hrounds⟩, hcost⟩ := hab
  obtain ⟨⟨⟨horigin', htime'⟩, hrounds'⟩, hcost'⟩ := hbc
  refine ⟨⟨⟨h.betterOrEqual_trans horigin' horigin, h.betterOrEqual_trans htime htime'⟩, ?_⟩, ?_⟩
  · exact hrounds.elim Or.inl fun hle => hrounds'.imp_right (Nat.le_trans hle)
  · exact hcost.elim Or.inl fun hle => hcost'.imp_right (Nat.le_trans hle)

theorem better_of_dominates {h : Heading} {p : DominancePolicy} {a b : Merits}
    (hab : dominates h p a b = true) :
    h.betterOrEqual b.originTime a.originTime = true ∧ h.betterOrEqual a.time b.time = true := by
  simp only [dominates, Bool.and_eq_true] at hab
  exact hab.1.1

end Merits

namespace Chart

variable {s : Search} {c c' : Chart} {w : Way} {start time : Time} {round stop : Nat}

section Improving

theorem improves_note (c : Chart) (rs : List Remark) : Improves s c (c.note s rs) := by
  refine ⟨id, id, id, ?_, id⟩
  unfold note
  split
  · exact List.prefix_append _ _
  · exact List.prefix_refl _

theorem improves_place (c : Chart) (w : Way) : Improves s c (c.place s w) := by
  refine ⟨?_, id, id, (improves_note (c.keep s w) _).log, id⟩
  rintro round stop time ⟨r, hr, v, hv, hbetter⟩
  by_cases hplace : w.arrival.round = r ∧ w.arrival.stop = stop
  · have hfront : (c.place s w).fronts r stop = c.frontAfter s w := if_pos hplace
    by_cases hdropped : s.dominates w.arrival v.arrival = true
    · refine ⟨r, hr, w, ?_, s.heading.betterOrEqual_trans (Search.better_of_dominates hdropped)
        hbetter⟩
      rw [hfront, frontAfter]
      exact List.mem_append_right _ (List.mem_singleton.mpr rfl)
    · refine ⟨r, hr, v, ?_, hbetter⟩
      rw [hfront, frontAfter, hplace.1, hplace.2]
      exact List.mem_append_left _ (List.mem_filter.mpr ⟨hv, by simp [hdropped]⟩)
  · refine ⟨r, hr, v, ?_, hbetter⟩
    have hfront : (c.place s w).fronts r stop = c.fronts r stop := if_neg hplace
    rwa [hfront]

theorem improves_offer (c : Chart) (w : Way) : Improves s c (c.offer s w) := by
  unfold offer
  split
  · exact .refl s c
  · exact improves_note c _
  · exact improves_place c w

theorem improves_addJourney (c : Chart) (j : Journey) : Improves s c (c.addJourney s j) := by
  obtain ⟨hfronts, -, -⟩ := addJourney_frame (s := s) (c := c) j
  -- a journey stays, or leaves for one that dominates it
  have hkept : ∀ i ∈ c.journeys, ∃ i' ∈ (c.addJourney s j).journeys, beats s i' i = true := by
    intro i hi
    rw [journeys_addJourney]
    cases hr : Pareto.rival? (beats s) c.journeys j with
    | some rival =>
        rw [Pareto.insert_of_rival hr]
        exact ⟨i, hi, Merits.dominates_refl ..⟩
    | none =>
        rw [Pareto.insert_of_none hr]
        by_cases hdropped : beats s j i = true
        · exact ⟨j, List.mem_append_right _ (List.mem_singleton.mpr rfl), hdropped⟩
        · exact ⟨i, List.mem_append_left _ (List.mem_filter.mpr ⟨hi, by simp [hdropped]⟩),
            Merits.dominates_refl ..⟩
  refine ⟨fun hk => by rwa [Knows, hfronts], ?_, ?_, ?_, fun hfront => ?_⟩
  · rintro start time ⟨i, hi, hleaves, hends⟩
    obtain ⟨i', hi', hbeats⟩ := hkept i hi
    obtain ⟨horigin, htime⟩ := Merits.better_of_dominates hbeats
    exact ⟨i', hi', s.heading.betterOrEqual_trans hleaves horigin,
      s.heading.betterOrEqual_trans htime hends⟩
  · rintro m ⟨i, hi, hdominates⟩
    obtain ⟨i', hi', hbeats⟩ := hkept i hi
    exact ⟨i', hi', Merits.dominates_trans hbeats hdominates⟩
  · unfold addJourney
    split
    · exact List.prefix_refl _
    · exact (improves_note _ _).log
  · rw [journeys_addJourney]
    exact Pareto.isFront_insert hfront j

theorem improves_reach (c : Chart) (w : Way) : Improves s c (c.reach s w) :=
  .foldl (fun c d _ => improves_addJourney c (journeyAlong s w d)) c

theorem improves_settle (c : Chart) (w : Way) : Improves s c (c.settle s w) := by
  by_cases hf : c.fate s w.arrival = .accepted
  · rw [settle_of_accepted hf]
    exact (improves_place c w).trans (improves_reach _ w)
  · rw [settle_of_not_accepted hf]
    exact improves_offer c w

theorem improves_begin (c : Chart) : Improves s c c.begin :=
  ⟨id, id, id, List.prefix_refl _, id⟩

theorem improves_seed (c : Chart) (time : Time) : Improves s c (c.seed s time) :=
  .foldl (fun c _ _ => improves_offer c _) c

theorem improves_alight (c : Chart) (v : PatternView) (round position stop : Nat)
    (b : Way × Search.Boarding) : Improves s c (c.alight s v round position stop b) := by
  unfold alight
  split
  · exact improves_settle c _
  · exact .refl s c

theorem improves_scanStop (v : PatternView) (round : Nat)
    (state : Chart × List (Way × Search.Boarding)) (entry : Nat × Nat) :
    Improves s state.1 (scanStop s v round state entry).1 := by
  unfold scanStop
  split
  · exact .foldl (fun c b _ => improves_alight c v round entry.2 entry.1 b) state.1
  · exact .refl s state.1

theorem improves_scanStops (v : PatternView) (round : Nat) (entries : List (Nat × Nat))
    (state : Chart × List (Way × Search.Boarding)) :
    Improves s state.1 (entries.foldl (scanStop s v round) state).1 := by
  induction entries generalizing state with
  | nil => exact .refl s state.1
  | cons entry entries ih =>
      exact (improves_scanStop v round state entry).trans (ih _)

theorem improves_scan (c : Chart) (round : Nat) (v : PatternView) :
    Improves s c (c.scan s round v) :=
  improves_scanStops v round (s.heading.inOrder v.stops.toList) (c, [])

theorem improves_transit (c : Chart) (round : Nat) : Improves s c (c.transit s round) :=
  .foldl (fun c v _ => improves_scan c round v) c

theorem improves_stroll (c : Chart) (w : Way) : Improves s c (c.stroll s w) := by
  unfold stroll
  split
  · exact .foldl (fun c _ _ => improves_offer c _) c
  · exact .refl s c

theorem improves_walk (c : Chart) (round : Nat) : Improves s c (c.walk s round) :=
  .foldl (fun c w _ => improves_stroll c w) c

theorem improves_round (c : Chart) (n : Nat) : Improves s c (c.round s n) :=
  (improves_transit c n).trans (improves_walk _ n)

theorem improves_rounds (c : Chart) (count first : Nat) : Improves s c (c.rounds s count first) :=
  .foldl (fun c n _ => improves_round c n) c

theorem improves_iterate (c : Chart) (time : Time) : Improves s c (c.iterate s time) :=
  (improves_begin c).trans ((improves_seed _ time).trans (improves_rounds _ s.maxRounds 1))

end Improving

section Offering

theorem knows_place (c : Chart) (w : Way) :
    (c.place s w).Knows s w.arrival.round w.arrival.stop w.arrival.time := by
  refine ⟨w.arrival.round, Nat.le_refl _, w, ?_, s.heading.betterOrEqual_refl _⟩
  have hfront : (c.place s w).fronts w.arrival.round w.arrival.stop = c.frontAfter s w :=
    if_pos ⟨rfl, rfl⟩
  rw [hfront, frontAfter]
  exact List.mem_append_right _ (List.mem_singleton.mpr rfl)

theorem knows_of_rejected {a : StopArrival} (hf : c.fate s a ≠ .accepted)
    (hp : c.prunes s a = false) : c.Knows s a.round a.stop a.time := by
  rw [ne_eq, fate_eq_accepted, not_and] at hf
  obtain ⟨r, hr, w, hw, hdominates⟩ : ∃ r ≤ a.round, ∃ w ∈ c.fronts r a.stop,
      s.dominates w.arrival a = true := by simpa using hf hp
  exact ⟨r, hr, w, hw, Search.better_of_dominates hdominates⟩

/-- An arrival that is not accepted is covered already. -/
theorem covers_of_not_accepted {a : StopArrival} (hf : c.fate s a ≠ .accepted)
    (hstart : s.heading.betterOrEqual start a.originTime = true) :
    c.Covers s start a.round a.stop a.time := by
  cases hp : c.prunes s a with
  | true =>
      simp only [prunes, Bool.and_eq_true, List.any_eq_true] at hp
      obtain ⟨-, j, hj, hdominates⟩ := hp
      obtain ⟨horigin, htime⟩ := Merits.better_of_dominates hdominates
      exact Or.inr ⟨j, hj, s.heading.betterOrEqual_trans hstart horigin, htime⟩
  | false => exact Or.inl (knows_of_rejected hf hp)

/-- A street leg where the search begins is always followed. -/
theorem knows_offer (c : Chart) (w : Way) (hround : w.arrival.round = 0) :
    (c.offer s w).Knows s w.arrival.round w.arrival.stop w.arrival.time := by
  by_cases hf : c.fate s w.arrival = .accepted
  · rw [offer_of_accepted hf]
    exact knows_place c w
  · exact (improves_offer c w).knows (knows_of_rejected hf (by simp [prunes, hround]))

theorem covers_offer (c : Chart) (w : Way)
    (hstart : s.heading.betterOrEqual start w.arrival.originTime = true) :
    (c.offer s w).Covers s start w.arrival.round w.arrival.stop w.arrival.time := by
  by_cases hf : c.fate s w.arrival = .accepted
  · rw [offer_of_accepted hf]
    exact Or.inl (knows_place c w)
  · exact (improves_offer c w).covers (covers_of_not_accepted hf hstart)

theorem covers_settle (c : Chart) (w : Way)
    (hstart : s.heading.betterOrEqual start w.arrival.originTime = true) :
    (c.settle s w).Covers s start w.arrival.round w.arrival.stop w.arrival.time := by
  by_cases hf : c.fate s w.arrival = .accepted
  · rw [settle_of_accepted hf]
    exact (improves_reach _ w).covers (Or.inl (knows_place c w))
  · exact (improves_settle c w).covers (covers_of_not_accepted hf hstart)

theorem serves_addJourney (c : Chart) (j : Journey) :
    (c.addJourney s j).Serves s j.ending.merits.originTime j.ending.merits.time := by
  rw [Serves, journeys_addJourney]
  cases hr : Pareto.rival? (beats s) c.journeys j with
  | some rival =>
      have hbeats : beats s rival j = true := List.find?_some (p := fun i => beats s i j) hr
      rw [Pareto.insert_of_rival hr]
      exact ⟨rival, List.mem_of_find?_eq_some hr, Merits.better_of_dominates hbeats⟩
  | none =>
      rw [Pareto.insert_of_none hr]
      exact ⟨j, List.mem_append_right _ (List.mem_singleton.mpr rfl),
        s.heading.betterOrEqual_refl _, s.heading.betterOrEqual_refl _⟩

/-- From a way by a trip one goes on to the destination. -/
theorem serves_reach (c : Chart) (w : Way) {d : Time} (hd : d ∈ s.targetDurations w.arrival.stop) :
    (c.reach s w).Serves s w.arrival.originTime (s.heading.advance w.arrival.time d) := by
  obtain ⟨before, after, hsplit⟩ := List.append_of_mem hd
  rw [reach, hsplit, List.foldl_append, List.foldl_cons]
  refine (Improves.foldl (fun c d _ => improves_addJourney c (journeyAlong s w d)) _).serves ?_
  exact serves_addJourney _ (journeyAlong s w d)

end Offering
end Chart
end JourneyPlanner
