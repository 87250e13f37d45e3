import JourneyPlanner.Proofs.ChartSound
import JourneyPlanner.Proofs.Fallible

/-!
Searches that go through the same rounds step by step. What relates their charts needs to
be compared on single arrivals only: where each of them meets the same fate on both sides
and is kept and followed alike, whole rounds are alike.
-/

namespace JourneyPlanner

/-- Searches over the same trips and walks, in the same direction and at the same rates. -/
def Search.MovesLike (s s' : Search) : Prop :=
  ∃ policy pruning origin target times maxRounds watch supervisor timeout,
    s' = { s with
      policy := policy
      pruning := pruning
      origin := origin
      target := target
      times := times
      maxRounds := maxRounds
      watch := watch
      supervisor := supervisor
      timeout := timeout }

namespace Chart

/-- A relation between charts of two searches that single steps in some rounds keep. -/
structure Lockstep (s s' : Search) (within : Nat → Prop) (R : Chart → Chart → Prop) : Prop where
  moves : s.MovesLike s'
  iteration : ∀ {c c' : Chart}, R c c' → c'.iteration = c.iteration
  fronts : ∀ {c c' : Chart} {n : Nat}, R c c' → within n → c'.fronts n = c.fronts n
  reached : ∀ {c c' : Chart} {n : Nat}, R c c' → within n → 0 < n → c'.reached n = c.reached n
  placed : ∀ {c c' : Chart} {n : Nat} {w : Way}, R c c' → within n → w ∈ c'.reached n →
    within w.arrival.round
  fate : ∀ {c c' : Chart} {a : StopArrival}, R c c' → within a.round → c'.fate s' a = c.fate s a
  note : ∀ {c c' : Chart} (rs rs' : List Remark), R c c' → R (c.note s rs) (c'.note s' rs')
  place : ∀ {c c' : Chart} {w : Way}, R c c' → within w.arrival.round →
    R (c.place s w) (c'.place s' w)
  reach : ∀ {c c' : Chart} {w : Way}, R c c' → within w.arrival.round →
    R (c.reach s w) (c'.reach s' w)

namespace Lockstep

variable {s s' : Search} {within : Nat → Prop} {R : Chart → Chart → Prop} {c c' : Chart} {w : Way}
  {n : Nat}

theorem offer (h : Lockstep s s' within R) (hc : R c c') (hw : within w.arrival.round) :
    R (c.offer s w) (c'.offer s' w) := by
  unfold Chart.offer
  rw [h.fate hc hw]
  cases c.fate s w.arrival with
  | pruned => exact hc
  | rejected rival => exact h.note _ _ hc
  | accepted => exact h.place hc hw

theorem settle (h : Lockstep s s' within R) (hc : R c c') (hw : within w.arrival.round) :
    R (c.settle s w) (c'.settle s' w) := by
  have hfate := h.fate hc hw
  by_cases hf : c.fate s w.arrival = .accepted
  · rw [settle_of_accepted hf, settle_of_accepted (hfate.trans hf)]
    exact h.reach (h.place hc hw) hw
  · rw [settle_of_not_accepted hf, settle_of_not_accepted (hfate ▸ hf)]
    exact h.offer hc hw

theorem alight (h : Lockstep s s' within R) (hc : R c c') (v : PatternView) (hn : within n)
    (position stop : Nat) (b : Way × Search.Boarding) :
    R (c.alight s v n position stop b) (c'.alight s' v n position stop b) := by
  have hleft : s'.left? v n position stop c'.iteration b.2
      = s.left? v n position stop c.iteration b.2 := by
    rw [h.iteration hc]
    obtain ⟨_, _, _, _, _, _, _, _, _, rfl⟩ := h.moves
    rfl
  unfold Chart.alight
  rw [hleft]
  cases ha : s.left? v n position stop c.iteration b.2 with
  | none => exact hc
  | some a =>
      refine h.settle hc ?_
      change within a.round
      exact (Search.left?_round ha).1 ▸ hn

theorem fresh (h : Lockstep s s' within R) (hc : R c c') (hn : within n) (stop : Nat) :
    c'.fresh n stop = c.fresh n stop := by
  unfold Chart.fresh
  rw [h.fronts hc hn, h.iteration hc]

/-- Both scans have caught the same trips. -/
theorem scanStop (h : Lockstep s s' within R) (v : PatternView) (hn : within n)
    (hbefore : within (n - 1)) (entry : Nat × Nat)
    {state state' : Chart × List (Way × Search.Boarding)}
    (hstate : R state.1 state'.1 ∧ state'.2 = state.2) :
    R (Chart.scanStop s v n state entry).1 (Chart.scanStop s' v n state' entry).1
      ∧ (Chart.scanStop s' v n state' entry).2 = (Chart.scanStop s v n state entry).2 := by
  obtain ⟨c, onboard⟩ := state
  obtain ⟨c', onboard'⟩ := state'
  obtain ⟨hc, honboard⟩ := hstate
  subst honboard
  have hsame : s'.filter = s.filter ∧ s'.caught? = s.caught? := by
    obtain ⟨_, _, _, _, _, _, _, _, _, rfl⟩ := h.moves
    exact ⟨rfl, rfl⟩
  unfold Chart.scanStop
  rw [hsame.1, hsame.2]
  cases s.filter.allowsStop entry.1 with
  | false => exact ⟨hc, rfl⟩
  | true =>
      have hleft := foldl_both (R := R) onboard'
        (fun b _ c c' hc => h.alight hc v hn entry.2 entry.1 b) hc
      have hfresh := h.fresh hleft hbefore entry.1
      exact ⟨hleft, congrArg (onboard' ++ ·)
        (congrArg (List.filterMap (s.caught? v n entry.2)) hfresh)⟩

theorem scan (h : Lockstep s s' within R) (hc : R c c') (hn : within n) (hbefore : within (n - 1))
    (v : PatternView) : R (c.scan s n v) (c'.scan s' n v) := by
  have hheading : s'.heading = s.heading := by
    obtain ⟨_, _, _, _, _, _, _, _, _, rfl⟩ := h.moves
    rfl
  unfold Chart.scan
  rw [hheading]
  exact (foldl_both (R := fun x x' : Chart × List (Way × Search.Boarding) =>
    R x.1 x'.1 ∧ x'.2 = x.2) _ (fun entry _ _ _ h' => h.scanStop v hn hbefore entry h')
    (c := (c, [])) (d := (c', [])) ⟨hc, rfl⟩).1

theorem transit (h : Lockstep s s' within R) (hc : R c c') (hn : within n)
    (hbefore : within (n - 1)) : R (c.transit s n) (c'.transit s' n) := by
  have hviews : s'.viewList = s.viewList := by
    obtain ⟨_, _, _, _, _, _, _, _, _, rfl⟩ := h.moves
    rfl
  unfold Chart.transit
  rw [hviews]
  exact foldl_both (R := R) _ (fun v _ _ _ hc => h.scan hc hn hbefore v) hc

theorem stroll (h : Lockstep s s' within R) (hc : R c c') (hw : within w.arrival.round) :
    R (c.stroll s w) (c'.stroll s' w) := by
  have hsame : s'.heading.walks s'.timetable = s.heading.walks s.timetable
      ∧ s'.walkArrival = s.walkArrival := by
    obtain ⟨_, _, _, _, _, _, _, _, _, rfl⟩ := h.moves
    exact ⟨rfl, rfl⟩
  unfold Chart.stroll
  rw [h.fronts hc hw, hsame.1, hsame.2]
  split
  · exact foldl_both (R := R) _ (fun k _ _ _ hc =>
      h.offer hc (w := w.extend (s.walkArrival 0 w.arrival k)) hw) hc
  · exact hc

theorem walk (h : Lockstep s s' within R) (hc : R c c') (hn : within n) (hpos : 0 < n) :
    R (c.walk s n) (c'.walk s' n) := by
  unfold Chart.walk
  rw [h.reached hc hn hpos]
  refine foldl_both (R := R) (c.reached n) (fun w hw _ _ hc' => h.stroll hc' (w := w) ?_) hc
  exact h.placed hc hn (h.reached hc hn hpos ▸ hw)

/-- A round that both searches play. -/
theorem round (h : Lockstep s s' within R) (hc : R c c') (hn : within n) (hbefore : within (n - 1))
    (hpos : 0 < n) : R (c.round s n) (c'.round s' n) :=
  h.walk (h.transit hc hn hbefore) hn hpos

end Lockstep

end Chart
end JourneyPlanner
