import JourneyPlanner.Proofs.Fallible
import JourneyPlanner.Proofs.Traced

/-!
Catching the best trip: the one found can be caught, and none that can be caught
is better.
-/

namespace JourneyPlanner

namespace Heading

variable {h : Heading} {a b c : Time}

theorem better_eq_false : h.better a b = false ↔ h.betterOrEqual b a = true := by
  rw [better_eq_not, Bool.not_eq_false']

theorem betterOrEqual_total (h : Heading) (a b : Time) :
    h.betterOrEqual a b = true ∨ h.betterOrEqual b a = true := by
  unfold betterOrEqual
  cases h.direction <;> simp only [decide_eq_true_eq]
  · exact Int.le_total a b
  · exact Int.le_total b a

theorem betterOrEqual_of_not (hnot : h.betterOrEqual a b = false) : h.betterOrEqual b a = true :=
  (h.betterOrEqual_total a b).resolve_left (Bool.eq_false_iff.mp hnot)

end Heading

theorem getElem?_flatMap_trips (days : List DayTrips) (index : Nat) :
    (days.flatMap fun day => day.trips.toList)[index]? = PatternView.tripIn? days index := by
  induction days generalizing index with
  | nil => rfl
  | cons day days ih =>
      rw [List.flatMap_cons, List.getElem?_append, PatternView.tripIn?, Array.length_toList]
      by_cases hlt : index < day.trips.size
      · rw [if_pos hlt, dif_pos hlt, Array.getElem?_toList, Array.getElem?_eq_getElem hlt]
      · rw [if_neg hlt, dif_neg hlt, ih]

/-- The trips of a view with their indices. -/
theorem mem_schedules {v : PatternView} {d : DayTrip} {index : Nat} :
    (d, index) ∈ v.schedules ↔ PatternView.tripIn? v.days index = some d := by
  rw [v.schedules_eq, schedulesOf, List.mk_mem_zipIdx_iff_getElem?, getElem?_flatMap_trips]

namespace PatternView

def trips (v : PatternView) : List DayTrip :=
  v.days.flatMap fun day => day.trips.toList

theorem mem_trips {v : PatternView} {d : DayTrip} :
    d ∈ v.trips ↔ ∃ index, tripIn? v.days index = some d := by
  simp only [trips, List.mem_iff_getElem?, getElem?_flatMap_trips]

/-- A trip can be caught at a position from a time on, at a call. -/
structure CanCatch (h : Heading) (f : TripFilter) (position stop : Nat) (limit : Time)
    (d : DayTrip) (call : Call) : Prop where
  stands : d.calls[position]? = some call
  inTime : h.betterOrEqual limit (h.boardTime call) = true
  routable : (h.boardRule call).isRoutable = true
  accepted : f.accepts d.trip position stop = true

variable {h : Heading} {f : TripFilter} {position stop : Nat} {limit : Time}

/-- A catchable trip that was found among some entries. -/
structure IsFound (h : Heading) (f : TripFilter) (position stop : Nat) (limit : Time)
    (entries : List (DayTrip × Nat)) (c : Catchable) : Prop where
  mem : (c.trip, c.index) ∈ entries
  catchable : ∃ call, CanCatch h f position stop limit c.trip call ∧ c.time = h.boardTime call

/-- Nothing that can be caught among some entries is better than the best so far. -/
def IsBest (h : Heading) (f : TripFilter) (position stop : Nat) (limit : Time)
    (entries : List (DayTrip × Nat)) (best : Option Catchable) : Prop :=
  ∀ e ∈ entries, ∀ call, CanCatch h f position stop limit e.1 call →
    ∃ c, best = some c ∧ h.betterOrEqual c.time (h.boardTime call) = true

theorem consider_eq_ok {best best' : Option Catchable} {entry : DayTrip × Nat}
    (hc : consider h f position stop limit best entry = .ok best') :
    (best' = best ∧ ∀ call, CanCatch h f position stop limit entry.1 call →
        ∃ c, best = some c ∧ h.betterOrEqual c.time (h.boardTime call) = true)
      ∨ ∃ call, CanCatch h f position stop limit entry.1 call
        ∧ best' = some ⟨entry.2, entry.1, h.boardTime call⟩
        ∧ ∀ c, best = some c → h.betterOrEqual c.time (h.boardTime call) = false := by
  simp only [consider, Fallible.bind_eq_ok] at hc
  obtain ⟨call, hcall, hc⟩ := hc
  have hcall : entry.1.calls[position]? = some call := by
    unfold DayTrip.call at hcall
    cases hget : entry.1.calls[position]? with
    | none => simp [hget] at hcall
    | some found => simpa [hget] using hcall
  have hsame : ∀ {call' : Call}, CanCatch h f position stop limit entry.1 call' → call' = call :=
    fun hcatch => Option.some.inj (hcatch.stands.symm.trans hcall)
  split at hc
  case isTrue hskip =>
    rw [Fallible.pure_eq_ok] at hc
    refine Or.inl ⟨hc.symm, fun call' hcatch => ?_⟩
    obtain rfl := hsame hcatch
    rw [Bool.or_eq_true, Heading.better_eq_not, hcatch.inTime] at hskip
    cases best with
    | none => simp at hskip
    | some c => exact ⟨c, rfl, by simpa using hskip⟩
  case isFalse htake =>
    rw [Bool.or_eq_true, not_or, Bool.not_eq_true, Heading.better_eq_false] at htake
    split at hc
    case isTrue hopen =>
      rw [Fallible.pure_eq_ok] at hc
      rw [Bool.and_eq_true] at hopen
      refine Or.inr ⟨call, ⟨hcall, htake.1, hopen.1, hopen.2⟩, hc.symm, fun c hbest => ?_⟩
      rw [hbest, Option.any_some, Bool.not_eq_true] at htake
      exact htake.2
    case isFalse hclosed =>
      rw [Fallible.pure_eq_ok] at hc
      refine Or.inl ⟨hc.symm, fun call' hcatch => ?_⟩
      obtain rfl := hsame hcatch
      exact absurd (by simp [hcatch.routable, hcatch.accepted]) hclosed

/-- After an entry was considered, the best so far is no worse than it. -/
theorem consider_covers {best best' : Option Catchable} {entry : DayTrip × Nat}
    (hc : consider h f position stop limit best entry = .ok best') {call : Call}
    (hcatch : CanCatch h f position stop limit entry.1 call) :
    ∃ c, best' = some c ∧ h.betterOrEqual c.time (h.boardTime call) = true := by
  rcases consider_eq_ok hc with ⟨rfl, hold⟩ | ⟨call', hcatch', rfl, -⟩
  · exact hold call hcatch
  · obtain rfl := Option.some.inj (hcatch.stands.symm.trans hcatch'.stands)
    exact ⟨_, rfl, h.betterOrEqual_refl _⟩

theorem foldlM_consider {entries : List (DayTrip × Nat)} {best best' : Option Catchable}
    (hc : entries.foldlM (consider h f position stop limit) best = .ok best') :
    (∀ c, best' = some c → best = some c ∨ IsFound h f position stop limit entries c)
      ∧ IsBest h f position stop limit entries best'
      ∧ ∀ c, best = some c → ∃ c', best' = some c' ∧ h.betterOrEqual c'.time c.time = true := by
  induction entries generalizing best with
  | nil =>
      rw [List.foldlM_nil, Fallible.pure_eq_ok] at hc
      subst hc
      exact ⟨fun c hc => Or.inl hc, fun e he => by simp at he,
        fun c hc => ⟨c, hc, h.betterOrEqual_refl _⟩⟩
  | cons entry entries ih =>
      obtain ⟨best₁, hstep, hrest⟩ := Fallible.foldlM_cons_eq_ok.mp hc
      obtain ⟨hfound, hbest, hkeep⟩ := ih hrest
      refine ⟨fun c hc => ?_, fun e he call hcatch => ?_, fun c hc => ?_⟩
      · rcases hfound c hc with hsome | hlater
        · rcases consider_eq_ok hstep with ⟨rfl, -⟩ | ⟨call, hcatch, rfl, -⟩
          · exact Or.inl hsome
          · obtain rfl := Option.some.inj hsome
            exact Or.inr ⟨List.mem_cons_self .., call, hcatch, rfl⟩
        · exact Or.inr ⟨List.mem_cons_of_mem _ hlater.mem, hlater.catchable⟩
      · cases he with
        | head =>
            obtain ⟨c₁, hc₁, hle⟩ := consider_covers hstep hcatch
            obtain ⟨c', hc', hle'⟩ := hkeep c₁ hc₁
            exact ⟨c', hc', h.betterOrEqual_trans hle' hle⟩
        | tail _ he => exact hbest e he call hcatch
      · obtain ⟨c₁, hc₁, hle⟩ : ∃ c₁, best₁ = some c₁
            ∧ h.betterOrEqual c₁.time c.time = true := by
          rcases consider_eq_ok hstep with ⟨rfl, -⟩ | ⟨call, -, rfl, hnew⟩
          · exact ⟨c, hc, h.betterOrEqual_refl _⟩
          · exact ⟨_, rfl, Heading.betterOrEqual_of_not (hnew c hc)⟩
        obtain ⟨c', hc', hle'⟩ := hkeep c₁ hc₁
        exact ⟨c', hc', h.betterOrEqual_trans hle' hle⟩

/-- The best so far is only replaced by something strictly better. -/
theorem foldlM_consider_change {entries : List (DayTrip × Nat)} {best best' : Option Catchable}
    (hc : entries.foldlM (consider h f position stop limit) best = .ok best') :
    best' = best ∨ ∃ c', best' = some c'
      ∧ ∀ c, best = some c → h.betterOrEqual c.time c'.time = false := by
  induction entries generalizing best with
  | nil =>
      rw [List.foldlM_nil, Fallible.pure_eq_ok] at hc
      exact Or.inl hc.symm
  | cons entry entries ih =>
      obtain ⟨best₁, hstep, hrest⟩ := Fallible.foldlM_cons_eq_ok.mp hc
      rcases consider_eq_ok hstep with ⟨rfl, -⟩ | ⟨call, -, rfl, hnew⟩
      · exact ih hrest
      rcases ih hrest with rfl | ⟨c', hc', hstrict⟩
      · exact Or.inr ⟨_, rfl, hnew⟩
      · refine Or.inr ⟨c', hc', fun c hbest => Bool.eq_false_iff.mpr fun hle => ?_⟩
        have hback := h.betterOrEqual_trans (Heading.betterOrEqual_of_not (hnew c hbest)) hle
        rw [hstrict _ rfl] at hback
        exact absurd hback (by decide)

/-- Of the trips among some entries that can be caught when the best one can, it comes first. -/
def IsFirst (h : Heading) (f : TripFilter) (position stop : Nat) (limit : Time)
    (entries : List (DayTrip × Nat)) (best : Option Catchable) : Prop :=
  ∀ c, best = some c → ∀ e ∈ entries, ∀ call, CanCatch h f position stop limit e.1 call →
    h.boardTime call = c.time → c.index ≤ e.2

/-- A trip takes the place of the best one only if it is strictly better, so of equals the
first one stays. -/
theorem foldlM_consider_first {entries : List (DayTrip × Nat)} {best best' : Option Catchable}
    (hordered : entries.Pairwise fun e e' => e.2 < e'.2)
    (hbefore : ∀ c, best = some c → ∀ e ∈ entries, c.index ≤ e.2)
    (hc : entries.foldlM (consider h f position stop limit) best = .ok best') :
    IsFirst h f position stop limit entries best' := by
  induction entries generalizing best with
  | nil => exact fun _ _ e he => absurd he List.not_mem_nil
  | cons entry entries ih =>
      obtain ⟨best₁, hstep, hrest⟩ := Fallible.foldlM_cons_eq_ok.mp hc
      rw [List.pairwise_cons] at hordered
      have hbefore₁ : ∀ c, best₁ = some c → ∀ e ∈ entry :: entries, c.index ≤ e.2 := by
        rcases consider_eq_ok hstep with ⟨rfl, -⟩ | ⟨call, -, rfl, -⟩
        · exact hbefore
        · rintro c ⟨⟩ e he
          cases he with
          | head => exact Nat.le_refl _
          | tail _ he => exact Nat.le_of_lt (hordered.1 e he)
      intro c hc e he call hcatch htime
      cases he with
      | tail _ he =>
          exact ih hordered.2 (fun c hc e he => hbefore₁ c hc e (List.mem_cons_of_mem _ he))
            hrest c hc e he call hcatch htime
      | head =>
          -- what comes later is strictly better than the best after the first entry
          obtain ⟨c₁, hc₁, hle⟩ := consider_covers hstep hcatch
          rcases foldlM_consider_change hrest with rfl | ⟨c', hc', hstrict⟩
          · exact hbefore₁ c hc entry (List.mem_cons_self ..)
          · obtain rfl := Option.some.inj (hc.symm.trans hc')
            rw [htime, hstrict c₁ hc₁] at hle
            exact absurd hle (by decide)

theorem pairwise_schedules (v : PatternView) : v.schedules.Pairwise fun e e' => e.2 < e'.2 := by
  rw [v.schedules_eq, schedulesOf, List.pairwise_iff_getElem]
  intro i j hi hj hij
  simpa using hij

/-- What is found is a trip of the view that can be caught, and the best one. -/
theorem findBoarding_eq_ok {v : PatternView} {found : Option Catchable}
    (hf : v.findBoarding h f position limit = .ok found) :
    ∃ stop, v.stops[position]? = some stop
      ∧ (∀ c, found = some c → IsFound h f position stop limit v.schedules c)
      ∧ IsBest h f position stop limit v.schedules found := by
  simp only [findBoarding, Fallible.bind_eq_ok] at hf
  obtain ⟨stop, hstop, hf⟩ := hf
  have hstop : v.stops[position]? = some stop := by
    unfold stopAt at hstop
    cases hget : v.stops[position]? with
    | none => simp [hget] at hstop
    | some found => simpa [hget] using hstop
  obtain ⟨hfound, hbest, -⟩ := foldlM_consider hf
  refine ⟨stop, hstop, fun c hc => ?_, hbest⟩
  cases hfound c hc with
  | inl hnone => simp at hnone
  | inr hfound => exact hfound

theorem findBoarding_isFirst {v : PatternView} {found : Option Catchable}
    (hf : v.findBoarding h f position limit = .ok found) (hstop : v.stops[position]? = some stop) :
    IsFirst h f position stop limit v.schedules found := by
  simp only [findBoarding, stopAt, hstop, Fallible.bind_eq_ok, Except.ok.injEq,
    exists_eq_left'] at hf
  exact foldlM_consider_first v.pairwise_schedules (fun c hc => by simp at hc) hf

/-- Whoever catches a trip at the same time catches the same trip. -/
theorem findBoarding_eq_of_time {v : PatternView} {limit' : Time} {c c' : Catchable}
    (hf : v.findBoarding h f position limit = .ok (some c))
    (hf' : v.findBoarding h f position limit' = .ok (some c')) (htime : c.time = c'.time) :
    c = c' := by
  obtain ⟨stop, hstop, hfound, -⟩ := findBoarding_eq_ok hf
  obtain ⟨stop', hstop', hfound', -⟩ := findBoarding_eq_ok hf'
  obtain rfl : stop = stop' := Option.some.inj (hstop.symm.trans hstop')
  obtain ⟨hmem, call, hcatch, hc⟩ := hfound c rfl
  obtain ⟨hmem', call', hcatch', hc'⟩ := hfound' c' rfl
  -- each of the two may be caught instead of the other one
  have hle : c.index ≤ c'.index := by
    refine findBoarding_isFirst hf hstop c rfl _ hmem' call' { hcatch' with inTime := ?_ } ?_
    · rw [← hc', ← htime, hc]
      exact hcatch.inTime
    · rw [← hc', htime]
  have hge : c'.index ≤ c.index := by
    refine findBoarding_isFirst hf' hstop c' rfl _ hmem call { hcatch with inTime := ?_ } ?_
    · rw [← hc, htime, hc']
      exact hcatch'.inTime
    · rw [← hc, htime]
  have hindex : c.index = c'.index := Nat.le_antisymm hle hge
  have htrip : c.trip = c'.trip := by
    rw [mem_schedules, hindex] at hmem
    exact Option.some.inj (hmem.symm.trans (mem_schedules.mp hmem'))
  cases c
  cases c'
  simp only at hindex htrip htime
  rw [hindex, htrip, htime]

/-- Looking for a trip does not fail at a stop where every trip has a call. -/
theorem findBoarding_succeeds {v : PatternView} (hposition : position < v.stops.size)
    (hcalls : ∀ e ∈ v.schedules, position < e.1.calls.size) :
    ∃ found, v.findBoarding h f position limit = .ok found := by
  have hrun : ∃ found, v.schedules.foldlM
      (consider h f position v.stops[position] limit) none = .ok found ∧ True := by
    refine Fallible.foldlM_succeeds (I := fun _ => True) (fun e he best _ => ?_) trivial
    have hcall := Array.getElem?_eq_getElem (hcalls e he)
    simp only [consider, DayTrip.call, hcall, bind, Except.bind]
    split
    · exact ⟨best, rfl, trivial⟩
    · split <;> exact ⟨_, rfl, trivial⟩
  obtain ⟨found, hfound, -⟩ := hrun
  refine ⟨found, ?_⟩
  simp only [findBoarding, stopAt, Array.getElem?_eq_getElem hposition, bind, Except.bind]
  exact hfound

end PatternView
end JourneyPlanner
