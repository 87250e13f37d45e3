import JourneyPlanner.Proofs.Iterations

/-!
Stops that can be attained by street legs, rides and walks at all, whatever a search
finds, and that an iteration covers them: nobody can be anywhere earlier, with no more
rides, than the search knows or has served.
-/

namespace JourneyPlanner

namespace Search

/-- Where one can go from a street leg by a walk there is a street leg too, and no
street leg of the other end starts where one leads. -/
structure StreetsClosed (s : Search) : Prop where
  onward : ∀ leg ∈ s.origin, ∀ k ∈ s.heading.walks s.timetable leg.stop,
    ∃ leg' ∈ s.origin, leg'.stop = k.target ∧ leg'.duration ≤ leg.duration + k.duration
  apart : ∀ leg ∈ s.origin, s.targetDurations leg.stop = []

/-- Walks and street legs from a stop reached by a ride are not lost to a street leg
that is there first. -/
def IsUnshadowed (s : Search) (start : Time) (stop : Nat) (time : Time) : Prop :=
  s.StreetsClosed ∨ ∀ leg ∈ s.origin, leg.stop = stop →
    s.heading.betterOrEqual (s.heading.advance start leg.duration) time = false

/-- A stop and a time that a traveller can attain by a ride, or else by a walk or a
street leg, with so many rides, leaving the origin from a time on. -/
inductive Attains (s : Search) (start : Time) : Bool → Nat → Nat → Time → Prop where
  | street {leg : StreetLeg} {time : Time} (hleg : leg ∈ s.origin)
      (htime : s.heading.betterOrEqual start time = true) :
      Attains s start false 0 leg.stop (s.heading.advance time leg.duration)
  | ride {ridden : Bool} {rides stop stop' i j : Nat} {time : Time} {v : PatternView} {d : DayTrip}
      {boardCall call : Call} (h : Attains s start ridden rides stop time)
      (hgo : s.Goes v d i stop j stop' boardCall call)
      (hlimit : s.heading.betterOrEqual (s.heading.boardLimit time)
        (s.heading.boardTime boardCall) = true)
      (hclear : s.IsUnshadowed start stop' (s.heading.alightTime call)) :
      Attains s start true (rides + 1) stop' (s.heading.alightTime call)
  | walk {rides stop : Nat} {time time' : Time} {k : Transfer} (h : Attains s start true rides stop time)
      (hk : k ∈ s.heading.walks s.timetable stop)
      (htime : s.heading.betterOrEqual (s.heading.advance time k.duration) time' = true) :
      Attains s start false rides k.target time'

theorem Attains.unshadowed {s : Search} {start time : Time} {rides stop : Nat}
    (h : s.Attains start true rides stop time) : s.IsUnshadowed start stop time := by
  cases h with
  | ride h hgo hlimit hclear => exact hclear

end Search

namespace Chart

/-- What holds of a chart at the end of the iteration that begins at `start`. -/
structure Exhausts (s : Search) (past : List Time) (c : Chart) (start : Time) : Prop where
  sound : c.Sound s past
  last : ∀ time ∈ past, s.heading.betterOrEqual start time = true
  followed : Followed s c start s.maxRounds s.maxRounds
  seeded : Seeded s c start

variable {s : Search} {past : List Time} {c : Chart} {start time time' : Time} {rides stop : Nat}

/-- A way without rides is a street leg. -/
theorem street_of_round_zero (h : c.Sound s past) {w : Way} (hw : w ∈ c.fronts 0 stop) :
    ∃ leg ∈ s.origin, ∃ time ∈ past, leg.stop = stop
      ∧ w.arrival.time = s.heading.advance time leg.duration := by
  obtain ⟨hround, hstop⟩ := h.placed hw
  have htraced := h.traced hw
  cases htraced with
  | @begin leg time iteration hleg htime => exact ⟨leg, hleg, time, htime, hstop, rfl⟩
  | ride hbefore hb hstop' horder hleft =>
      have ha := (Search.left?_round hleft).1
      simp [Way.extend, StopArrival.unlinked, ha] at hround
  | walk hbefore hride hk =>
      have hpos := hbefore.round_pos hride
      simp only [Way.extend, StopArrival.unlinked, Search.walkArrival] at hround
      omega

theorem Knows.ridden (hx : s.heading.IsExact) (h : Exhausts s past c start)
    (hk : c.Knows s rides stop time) (hrides : rides < s.maxRounds) {v : PatternView} {d : DayTrip}
    {i j stop' : Nat} {boardCall call : Call} (hgo : s.Goes v d i stop j stop' boardCall call)
    (hlimit : s.heading.betterOrEqual (s.heading.boardLimit time)
      (s.heading.boardTime boardCall) = true) :
    c.Covers s start (rides + 1) stop' (s.heading.alightTime call) := by
  obtain ⟨r, hr, w, hw, hbetter⟩ := hk
  obtain ⟨-, rfl⟩ := h.sound.placed hw
  have hridden := h.followed.ridden hw (by omega) fun _ => by omega
  refine (hridden v d i j stop' boardCall call hgo ?_).weaken hx (s.heading.betterOrEqual_refl _)
    (by omega) (s.heading.betterOrEqual_refl _)
  exact s.heading.betterOrEqual_trans (Heading.boardLimit_better hx hbetter) hlimit

/-- Nothing is lost to a street leg that is at a stop before an unshadowed ride. -/
theorem street_followed (hx : s.heading.IsExact) (h : Exhausts s past c start)
    (hclear : s.IsUnshadowed start stop time) {w : Way} (hw : w ∈ c.fronts 0 stop)
    (hbetter : s.heading.betterOrEqual w.arrival.time time = true) :
    Walked s c start 0 w.arrival ∧ Ended s c start w.arrival := by
  obtain ⟨leg, hleg, t, ht, rfl, htime⟩ := street_of_round_zero h.sound hw
  have hstop := (h.sound.placed hw).2
  have hfrom : s.heading.betterOrEqual (s.heading.advance start leg.duration) w.arrival.time = true :=
    htime ▸ Heading.advance_better hx (h.last t ht) (Int.le_refl _)
  cases hclear with
  | inl hstreets =>
      constructor
      · intro k hk
        obtain ⟨leg', hleg', htarget, hduration⟩ := hstreets.onward leg hleg k (hstop ▸ hk)
        refine Or.inl ?_
        rw [← htarget]
        refine (h.seeded leg' hleg').weaken (Nat.le_refl _) ?_
        rw [htime, Heading.advance_advance]
        exact Heading.advance_better hx (h.last t ht) hduration
      · intro d hd
        rw [hstop, hstreets.apart leg hleg] at hd
        exact absurd hd (List.not_mem_nil)
  | inr hlate =>
      have hnot := hlate leg hleg rfl
      rw [s.heading.betterOrEqual_trans hfrom hbetter] at hnot
      exact absurd hnot (by decide)

/-- Walks from an unshadowed stop that is known are covered. -/
theorem Knows.walked (hx : s.heading.IsExact) (h : Exhausts s past c start)
    (hk : c.Knows s rides stop time) (hrides : rides ≤ s.maxRounds)
    (hclear : s.IsUnshadowed start stop time) {k : Transfer} (hwalk : k ∈ s.heading.walks s.timetable stop) :
    c.Covers s start rides k.target (s.heading.advance time k.duration) := by
  obtain ⟨r, hr, w, hw, hbetter⟩ := hk
  have hwalked : Walked s c start r w.arrival := by
    cases r with
    | zero => exact (street_followed hx h hclear hw hbetter).1
    | succ r => exact h.followed.walked hw (Nat.succ_pos r) (by omega) fun _ => by omega
  obtain ⟨-, rfl⟩ := h.sound.placed hw
  exact (hwalked k hwalk).weaken hx (s.heading.betterOrEqual_refl _) hr
    (Heading.advance_better hx hbetter (Int.le_refl _))

/-- The same of street legs to where the search ends. -/
theorem Knows.ended (hx : s.heading.IsExact) (h : Exhausts s past c start)
    (hk : c.Knows s rides stop time) (hclear : s.IsUnshadowed start stop time) {d : Time}
    (hd : d ∈ s.targetDurations stop) :
    c.Serves s start (s.heading.advance time d) := by
  obtain ⟨r, hr, w, hw, hbetter⟩ := hk
  have hended : Ended s c start w.arrival := by
    cases r with
    | zero => exact (street_followed hx h hclear hw hbetter).2
    | succ r => exact h.followed.ended hw (Nat.succ_pos r)
  obtain ⟨-, rfl⟩ := h.sound.placed hw
  exact (hended d hd).weaken (s.heading.betterOrEqual_refl _)
    (Heading.advance_better hx hbetter (Int.le_refl _))

end Chart

namespace Search

variable {s : Search}

/-- Time passes during a ride. -/
theorem Goes.later (hs : s.WellTimed) {v : PatternView} {d : DayTrip} {i stop j stop' : Nat}
    {boardCall call : Call} (hgo : s.Goes v d i stop j stop' boardCall call) {time : Time}
    (hlimit : s.heading.betterOrEqual (s.heading.boardLimit time)
      (s.heading.boardTime boardCall) = true) :
    s.heading.betterOrEqual time (s.heading.alightTime call) = true := by
  obtain ⟨index, hd⟩ := hgo.caught.trip
  have hcalls := hs.chronological v hgo.caught.view index d hd
  have hget : ∀ {position : Nat} {c : Call}, d.calls[position]? = some c →
      d.calls.toList[position]? = some c := fun h => by rwa [Array.getElem?_toList]
  have horder := hgo.order
  have hslack := hs.slack
  have hx := hs.exact
  cases hdirection : s.heading.direction <;>
    simp only [Heading.Precedes, Heading.betterOrEqual, Heading.boardLimit, Heading.boardTime,
      Heading.alightTime, hdirection, hx.keep, decide_eq_true_eq] at horder hlimit ⊢
  · have hride := hcalls.departure_le horder (hget hgo.caught.stands.2) (hget hgo.leaves.2)
    grind
  · have hride := hcalls.departure_le horder (hget hgo.leaves.2) (hget hgo.caught.stands.2)
    grind

end Search

namespace Chart

variable {s : Search} {past : List Time} {c : Chart} {start time : Time} {rides stop : Nat}

/-- Whatever can be attained is covered. -/
theorem covers_of_attains (hs : s.WellTimed) (h : Exhausts s past c start) {ridden : Bool}
    (ha : s.Attains start ridden rides stop time) (hrides : rides ≤ s.maxRounds) :
    c.Covers s start rides stop time := by
  induction ha with
  | @street leg time hleg htime =>
      exact Or.inl ((h.seeded leg hleg).weaken (Nat.le_refl _)
        (Heading.advance_better hs.exact htime (Int.le_refl _)))
  | ride ha hgo hlimit hclear ih =>
      cases ih (by omega) with
      | inl hknows => exact hknows.ridden hs.exact h (by omega) hgo hlimit
      | inr hserves =>
          exact Or.inr (hserves.weaken (s.heading.betterOrEqual_refl _)
            (Heading.advance_better hs.exact (hgo.later hs hlimit) (Int.le_refl _)))
  | @walk rides stop time time' k ha hk htime ih =>
      cases ih hrides with
      | inl hknows =>
          exact (hknows.walked hs.exact h hrides ha.unshadowed hk).weaken hs.exact
            (s.heading.betterOrEqual_refl _) (Nat.le_refl _) htime
      | inr hserves =>
          have hlater := s.heading.betterOrEqual_trans
            (Heading.le_advance hs.exact (hs.walks stop k hk).2) htime
          exact Or.inr (hserves.weaken (s.heading.betterOrEqual_refl _)
            (Heading.advance_better hs.exact hlater (Int.le_refl _)))

/-- Whoever can attain the destination is served. -/
theorem serves_of_attains (hs : s.WellTimed) (h : Exhausts s past c start)
    (ha : s.Attains start true rides stop time) (hrides : rides ≤ s.maxRounds) {d : Time}
    (hd : d ∈ s.targetDurations stop) : c.Serves s start (s.heading.advance time d) := by
  cases covers_of_attains hs h ha hrides with
  | inl hknows => exact hknows.ended hs.exact h ha.unshadowed hd
  | inr hserves =>
      exact hserves.weaken (s.heading.betterOrEqual_refl _)
        (Heading.advance_better hs.exact (s.heading.betterOrEqual_refl _) (Search.leastDuration_le hd))

theorem exhausts_iterations (hs : s.WellTimed) (ho : s.IsOrderly) (hclosed : s.WalksClosed)
    {times : List Time} (hc : c.Sound s past)
    (hf : ∀ start, (∀ time ∈ past, s.heading.betterOrEqual start time = true) →
      Followed s c start s.maxRounds s.maxRounds)
    (hsorted : (past ++ times).Pairwise fun a b => s.heading.betterOrEqual b a = true)
    (ht : start ∈ times) : ∃ past' c', Exhausts s past' c' start
      ∧ Improves s c' (times.foldl (fun c time => c.iterate s time) c) := by
  induction times generalizing past c with
  | nil => simp at ht
  | cons time times ih =>
      have hlast : ∀ t ∈ past ++ [time], s.heading.betterOrEqual time t = true := by
        intro t ht
        cases List.mem_append.mp ht with
        | inl ht => exact (List.pairwise_append.mp hsorted).2.2 t ht time (List.mem_cons_self ..)
        | inr ht =>
            obtain rfl := List.mem_singleton.mp ht
            exact s.heading.betterOrEqual_refl _
      have hsound := hc.mono (List.subset_append_left past [time])
      have hmem : time ∈ past ++ [time] := List.mem_append_right _ (List.mem_singleton.mpr rfl)
      have hfollowed := followed_iterate hs ho hclosed hlast hmem (s.heading.betterOrEqual_refl time)
        hsound (hf time fun t ht => hlast t (List.mem_append_left _ ht))
      have hiterated := sound_iterate hsound hmem
      rw [List.foldl_cons]
      cases ht with
      | head =>
          refine ⟨past ++ [start], c.iterate s start, ⟨hiterated, hlast, hfollowed, ?_⟩,
            .foldl (fun c t _ => improves_iterate c t) _⟩
          intro leg hleg
          exact (improves_rounds _ s.maxRounds 1).knows (seeded_seed c.begin start leg hleg)
      | tail _ ht =>
          refine ih hiterated (fun start hstart => ?_) ?_ ht
          · exact hfollowed.weaken hs.exact (hstart time hmem)
          · rwa [List.append_assoc]

/-- A complete search has exhausted each of its iterations. -/
theorem exhausts_of_mem (hs : s.WellTimed) (ho : s.IsOrderly) (hclosed : s.WalksClosed)
    (hsorted : s.times.Pairwise fun a b => s.heading.betterOrEqual b a = true)
    (ht : start ∈ s.times) :
    ∃ past c, Exhausts s past c start ∧ Improves s c s.chart :=
  exhausts_iterations hs ho hclosed (sound_empty s [])
    (fun start _ => followed_empty s start s.maxRounds s.maxRounds) hsorted ht

end Chart
end JourneyPlanner
