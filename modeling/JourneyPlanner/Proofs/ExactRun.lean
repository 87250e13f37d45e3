import JourneyPlanner.Proofs.Fitting
import JourneyPlanner.Proofs.Spanning

/-!
A search whose times fit runs as it would with exact sums. Every arrival it keeps stems
from a time of the timetable or of an iteration, and at each kind of arrival so much of
the leeway is left that whatever the next step adds still fits.
-/

namespace JourneyPlanner

namespace Fallible

variable {ε α β σ : Type}

/-- Two computations are the same, and whatever they give has a property. -/
structure Alike (I : α → Prop) (x y : Except ε α) : Prop where
  same : x = y
  keeps : ∀ a, x = .ok a → I a

variable {I : α → Prop} {J : β → Prop}

theorem alike_ok {a : α} (ha : I a) : Alike (ε := ε) I (.ok a) (.ok a) where
  same := rfl
  keeps _ h := Except.ok.inj h ▸ ha

theorem alike_of_eq {x y : Except ε α} (h : x = y) (hx : ∀ a, x = .ok a → I a) : Alike I x y :=
  ⟨h, hx⟩

theorem Alike.bind {x y : Except ε α} {f g : α → Except ε β} (h : Alike I x y)
    (hf : ∀ a, I a → Alike J (f a) (g a)) : Alike J (x >>= f) (y >>= g) := by
  obtain ⟨rfl, hI⟩ := h
  cases x with
  | error e => exact ⟨rfl, fun _ h => by cases h⟩
  | ok a => exact hf a (hI a rfl)

theorem Alike.map {x y : Except ε α} {f : α → β} (h : Alike I x y) (hf : ∀ a, I a → J (f a)) :
    Alike J (x.map f) (y.map f) := by
  obtain ⟨rfl, hI⟩ := h
  refine ⟨rfl, fun b hb => ?_⟩
  obtain ⟨a, ha, rfl⟩ := map_eq_ok.mp hb
  exact hf a (hI a ha)

theorem alike_ite {c : Prop} [Decidable c] {x y x' y' : Except ε α} (hx : c → Alike I x y)
    (hx' : ¬c → Alike I x' y') : Alike I (if c then x else x') (if c then y else y') := by
  split
  case isTrue hc => exact hx hc
  case isFalse hc => exact hx' hc

theorem alike_foldlM {I : σ → Prop} {f g : σ → α → Except ε σ} {xs : List α} {p : σ}
    (step : ∀ x ∈ xs, ∀ p, I p → Alike I (f p x) (g p x)) (hp : I p) :
    Alike I (xs.foldlM f p) (xs.foldlM g p) := by
  induction xs generalizing p with
  | nil => exact alike_ok hp
  | cons x xs ih =>
      exact (step x (List.mem_cons_self ..) p hp).bind fun p' hp' =>
        ih (fun y hy => step y (List.mem_cons_of_mem _ hy)) hp'

end Fallible

namespace StopTable

/-- All arrivals have a property, and the labels of a front are of its round. -/
structure All (P : StopArrival → Prop) (t : StopTable) : Prop where
  arrivals : ∀ {id : Nat} {a : StopArrival}, t.arrivals[id]? = some a → P a
  listed : ∀ {round stop : Nat} {labels : List Label}, t.front? round stop = some labels →
    ∀ l ∈ labels, P l.arrival ∧ l.arrival.round = round

variable {P : StopArrival → Prop} {t : StopTable}

theorem all_empty (numStops maxRounds : Nat) : (empty numStops maxRounds).All P where
  arrivals h := by simp [empty] at h
  listed h := by
    simp only [empty, front?, Array.getElem?_replicate] at h
    split at h
    · simp only [Option.bind_eq_bind, Option.bind_some, Array.getElem?_replicate,
        Option.ite_none_right_eq_some, Option.some_inj] at h
      simp [← h.2]
    · simp at h

theorem front_eq_ok {round stop : Nat} {labels : List Label} (h : t.front round stop = .ok labels) :
    t.front? round stop = some labels := by
  unfold front at h
  cases hfront : t.front? round stop with
  | none => simp [hfront] at h
  | some found => simpa [hfront] using h

theorem All.place (ht : t.All P) {a : StopArrival} (ha : P a) {labels : List Label}
    (hlabels : ∀ l ∈ labels, P l.arrival ∧ l.arrival.round = a.round) :
    (t.place a labels).All P where
  arrivals hb := by
    rcases arrivals_place_cases hb with ⟨-, rfl⟩ | hb
    · exact ha
    · exact ht.arrivals hb
  listed h := by
    rw [front?_place] at h
    split at h
    case isTrue hplace =>
      obtain ⟨old, -, rfl⟩ := Option.map_eq_some_iff.mp h
      exact hplace.1 ▸ hlabels
    case isFalse => exact ht.listed h

end StopTable

namespace Heading

/-- How much a trip is left before it departs, in search direction. -/
def alightSlack (h : Heading) : Time :=
  match h.direction with
  | .forward => 0
  | .reverse => h.boardSlack

end Heading

namespace Search

theorem HasViews.exact {s : Search} (h : s.HasViews) : s.exact.HasViews :=
  h

/-- How far arrivals of a kind are from the times they stem from. -/
def reach (s : Search) : ArrivalKind → Time
  | .access _ => s.longestLeg
  | .transit _ _ _ _ => s.heading.alightSlack
  | .transfer _ _ => s.heading.alightSlack + s.longestWalk

/-- An arrival stems from a time of the timetable or, by a street leg, of an iteration. -/
structure Stems (s : Search) (a : StopArrival) : Prop where
  near : ∃ t ∈ s.times ++ s.callTimes, (0 < a.round → t ∈ s.callTimes)
    ∧ ∃ distance, 0 ≤ distance ∧ distance ≤ s.reach a.kind
      ∧ a.time = s.exact.heading.advance t distance
  street : ∀ {d : Time}, a.kind = .access d → a.round = 0 ∧ 0 ≤ d ∧ d ≤ s.longestLeg

/-- 32 bits hold from when on a trip can be caught after an arrival and, after a ride, how long
one waits for it. -/
structure FitsAfter (s : Search) (a : StopArrival) : Prop where
  limit : s.heading.direction = .forward → Time.Fits (a.time + s.heading.boardSlack)
  waits : 0 < a.round → ∀ t ∈ s.callTimes, Time.Fits <|
    match s.heading.direction with
    | .forward => t - a.time - s.heading.boardSlack
    | .reverse => a.time - t

/-- All arrivals found so far stem from times of the search. -/
def Timely (s : Search) (p : Progress) : Prop :=
  p.table.All s.Stems

variable {s : Search} {searchDate : Date} {p : Progress} {a : StopArrival}

namespace FitsAfter

theorem boardLimit_exact (ha : s.FitsAfter a) :
    s.heading.boardLimit a.time = s.exact.heading.boardLimit a.time := by
  unfold Heading.boardLimit
  simp only [exact, Heading.exact]
  cases hdirection : s.heading.direction with
  | forward => exact Heading.keep_of_fits _ (ha.limit hdirection)
  | reverse => rfl

theorem wait_exact (ha : s.FitsAfter a) (hround : 0 < a.round) {boardTime : Time}
    (ht : boardTime ∈ s.callTimes) :
    s.heading.wait a.time boardTime = s.exact.heading.wait a.time boardTime := by
  have hwait := ha.waits hround boardTime ht
  unfold Heading.wait
  simp only [exact, Heading.exact]
  cases hdirection : s.heading.direction <;> simp only [hdirection] at hwait <;>
    exact Heading.keep_of_fits _ hwait

end FitsAfter

section Sums

variable (hs : s.WellFormed) (hfits : s.Fits searchDate)

include hs

theorem WellFormed.nonneg : 0 ≤ s.heading.boardSlack ∧ 0 ≤ s.longestWalk ∧ 0 ≤ s.longestLeg :=
  ⟨hs.slack, nonneg_longest _, nonneg_longest _⟩

theorem WellFormed.alightSlack :
    0 ≤ s.heading.alightSlack ∧ s.heading.alightSlack ≤ s.heading.boardSlack := by
  have hslack := hs.slack
  unfold Heading.alightSlack
  cases s.heading.direction <;> grind

theorem WellFormed.leastDuration : 0 ≤ s.leastDuration ∧ s.leastDuration ≤ s.longestLeg := by
  unfold Search.leastDuration
  cases hmin : (s.target.map (·.duration)).min? with
  | none => exact ⟨Int.le_refl 0, hs.nonneg.2.2⟩
  | some d =>
      obtain ⟨leg, hleg, rfl⟩ := List.mem_map.mp (List.min?_mem hmin)
      exact hs.le_longestLeg (Or.inr hleg)

/-- After a ride the street leg no longer counts. -/
theorem Stems.reach_le (ha : s.Stems a) (hround : 0 < a.round) :
    s.reach a.kind ≤ s.heading.alightSlack + s.longestWalk := by
  have hwalk := hs.nonneg.2.1
  unfold reach
  cases hkind : a.kind with
  | access d => exact absurd (ha.street hkind).1 (Nat.ne_of_gt hround)
  | transit pattern trip board position => grind
  | transfer fromStop d => grind

include hfits

theorem Fits.time {t : Time} (ht : t ∈ s.times) : Time.Fits t := by
  obtain ⟨hslack, hwalk, hleg⟩ := hs.nonneg
  obtain ⟨hlow, hhigh⟩ := hfits.near t (List.mem_append_left _ ht)
  unfold leeway at hlow hhigh
  grind [Time.Fits, leastTime, greatestTime]

omit hs in
/-- Sums that are within the leeway of a time of the search are kept as they are. -/
theorem Fits.keep_near {t sum : Time} (ht : t ∈ s.times ++ s.callTimes) (hlow : t - s.leeway ≤ sum)
    (hhigh : sum ≤ t + s.leeway) : s.heading.keep sum = sum := by
  obtain ⟨hleast, hgreatest⟩ := hfits.near t ht
  exact Heading.keep_of_fits _ ⟨Int.le_trans hleast.1 hlow, Int.le_trans hhigh hgreatest.2⟩

omit hs in
theorem Fits.advance_exact {t d : Time} (ht : t ∈ s.times ++ s.callTimes) (hd : 0 ≤ d)
    (hle : d ≤ s.leeway) : s.heading.advance t d = s.exact.heading.advance t d := by
  unfold Heading.advance
  simp only [exact, Heading.exact]
  cases s.heading.direction with
  | forward => exact hfits.keep_near ht (by grind) (by grind)
  | reverse => exact hfits.keep_near ht (by grind) (by grind)

omit hs in
/-- As long as leeway is left one gets on from an arrival without a wrap. -/
theorem Stems.advance_exact (ha : s.Stems a) {d : Time} (hd : 0 ≤ d)
    (hle : s.reach a.kind + d ≤ s.leeway) :
    s.heading.advance a.time d = s.exact.heading.advance a.time d := by
  obtain ⟨t, ht, -, distance, hdistance, hreach, htime⟩ := ha.near
  rw [htime, ← hfits.advance_exact ht hdistance (by grind), Heading.advance_advance,
    hfits.advance_exact ht (by grind) (by grind), hfits.advance_exact ht hdistance (by grind),
    Heading.advance_advance]

/-- After a ride the leeway is enough for a street leg. -/
theorem Stems.advance_leg (ha : s.Stems a) (hround : 0 < a.round) {d : Time} (hd : 0 ≤ d)
    (hle : d ≤ s.longestLeg) : s.heading.advance a.time d = s.exact.heading.advance a.time d := by
  obtain ⟨-, halight⟩ := hs.alightSlack
  have hreach := ha.reach_le hs hround
  refine ha.advance_exact hfits hd ?_
  unfold leeway
  grind

/-- Other calls are within reach from where a trip is caught next. -/
theorem Stems.fitsAfter (ha : s.Stems a) : s.FitsAfter a := by
  obtain ⟨t, ht, hcall, distance, hdistance, hreach, htime⟩ := ha.near
  obtain ⟨hslack, hwalk, hleg⟩ := hs.nonneg
  refine ⟨fun hdirection => ?_, fun hround boardTime hboard => ?_⟩
  · obtain ⟨hlow, hhigh⟩ := hfits.near t ht
    have hused : distance ≤ s.longestLeg + s.longestWalk := by
      simp only [reach, Heading.alightSlack, hdirection] at hreach
      cases hkind : a.kind <;> simp only [hkind] at hreach <;> grind
    simp only [Heading.advance, exact, Heading.exact, Heading.keep, hdirection] at htime
    unfold leeway at hlow hhigh
    grind [Time.Fits, leastTime, greatestTime]
  · have hbefore := hfits.apart t (hcall hround) boardTime hboard
    have hafter := hfits.apart boardTime hboard t (hcall hround)
    have hused := Int.le_trans hreach (ha.reach_le hs hround)
    unfold leeway at hbefore hafter
    unfold Heading.alightSlack at hused
    simp only [Heading.advance, exact, Heading.exact, Heading.keep] at htime
    cases hdirection : s.heading.direction <;> simp only [hdirection] at hused htime ⊢ <;>
      grind [Time.Fits, leastTime, greatestTime]

theorem Fits.originTime_exact {boardTime duration : Time} (ht : boardTime ∈ s.callTimes)
    (hduration : 0 ≤ duration) (hle : duration ≤ s.longestLeg) :
    s.heading.originTime boardTime duration = s.exact.heading.originTime boardTime duration := by
  obtain ⟨hslack, hwalk, hleg⟩ := hs.nonneg
  have ht := List.mem_append_right s.times ht
  have hleeway : s.heading.boardSlack + duration ≤ s.leeway := by unfold leeway; grind
  unfold Heading.originTime
  simp only [exact, Heading.exact]
  cases s.heading.direction with
  | forward => exact hfits.keep_near ht (by grind) (by grind)
  | reverse => exact hfits.keep_near ht (by grind) (by grind)

theorem Fits.alightTime_exact {c : Call} (ht : c.departure ∈ s.callTimes) :
    s.heading.alightTime c = s.exact.heading.alightTime c := by
  obtain ⟨hslack, hwalk, hleg⟩ := hs.nonneg
  have hleeway : s.heading.boardSlack ≤ s.leeway := by unfold leeway; grind
  unfold Heading.alightTime
  simp only [exact, Heading.exact]
  cases s.heading.direction with
  | forward => rfl
  | reverse => exact hfits.keep_near (List.mem_append_right _ ht) (by grind) (by grind)

theorem Fits.keep_sub {t t' : Time} (ht : t ∈ s.callTimes) (ht' : t' ∈ s.callTimes) :
    s.heading.keep (t - t') = t - t' := by
  obtain ⟨hslack, hwalk, hleg⟩ := hs.nonneg
  have hbefore := hfits.apart t ht t' ht'
  have hafter := hfits.apart t' ht' t ht
  unfold leeway at hbefore hafter
  refine Heading.keep_of_fits _ ?_
  grind [Time.Fits, leastTime, greatestTime]

theorem Fits.inVehicle_exact {board alight : Call}
    (hboard : board.arrival ∈ s.callTimes ∧ board.departure ∈ s.callTimes)
    (halight : alight.arrival ∈ s.callTimes ∧ alight.departure ∈ s.callTimes) :
    s.heading.inVehicle board alight = s.exact.heading.inVehicle board alight := by
  unfold Heading.inVehicle
  simp only [exact, Heading.exact]
  cases s.heading.direction with
  | forward => exact hfits.keep_sub hs halight.1 hboard.2
  | reverse => exact hfits.keep_sub hs hboard.1 halight.2

end Sums

section Arrivals

open Fallible

variable (hs : s.WellFormed) (hfits : s.Fits searchDate)

include hs hfits

/-- What is added on the way to the destination fits, after a ride. -/
theorem bound_exact (ha : s.Stems a) (hround : 0 < a.round) : s.bound a = s.exact.bound a := by
  obtain ⟨hleast, hleast'⟩ := hs.leastDuration
  simp only [bound, ha.advance_leg hs hfits hround hleast hleast']
  rfl

theorem pruned?_exact (ha : s.Stems a) (p : Progress) : s.pruned? p a = s.exact.pruned? p a := by
  unfold pruned?
  by_cases hround : 0 < a.round
  · rw [bound_exact hs hfits ha hround]
    rfl
  · simp [hround]

theorem addArrival_alike (hp : s.Timely p) (ha : s.Stems a) :
    Alike (fun r => s.Timely r.1) (s.addArrival p a) (s.exact.addArrival p a) := by
  refine alike_of_eq ?_ ?_
  · unfold addArrival
    rw [pruned?_exact hs hfits ha]
    rfl
  · rintro ⟨p', result⟩ h
    unfold addArrival at h
    cases hpruned : s.pruned? p a with
    | some journey =>
        simp only [hpruned, Except.ok.injEq, Prod.mk.injEq] at h
        obtain ⟨rfl, -⟩ := h
        unfold Timely
        rwa [(reportArrival_frame ..).1]
    | none =>
        simp only [hpruned, bind_eq_ok] at h
        obtain ⟨addition, hjudge, h⟩ := h
        obtain ⟨old, hold, ⟨rival, -, rfl⟩ | ⟨-, rfl⟩⟩ := judge_eq_ok hjudge
        · simp only [pure_eq_ok, Prod.mk.injEq] at h
          obtain ⟨rfl, -⟩ := h
          unfold Timely
          rwa [(reportArrival_frame ..).1]
        · simp only [pure_eq_ok, Prod.mk.injEq] at h
          obtain ⟨rfl, -⟩ := h
          unfold Timely
          rw [(reportDrops_frame ..).1, (reportArrival_frame ..).1]
          refine StopTable.All.place hp ha fun l hl => ?_
          rcases List.mem_append.mp hl with hl | hl
          · exact hp.listed hold l (List.mem_filter.mp hl).1
          · obtain rfl := List.mem_singleton.mp hl
            exact ⟨ha, rfl⟩

/-- Adding the arrivals of a list one after the other. -/
theorem addAll_alike {α : Type} (hp : s.Timely p) {xs : List α} {f g : Progress → α → StopArrival}
    (hsame : ∀ x ∈ xs, ∀ q, s.Timely q → f q x = g q x ∧ s.Stems (f q x)) :
    Alike s.Timely (xs.foldlM (fun p x => (s.addArrival p (f p x)).map (·.1)) p)
      (xs.foldlM (fun p x => (s.exact.addArrival p (g p x)).map (·.1)) p) := by
  refine alike_foldlM (fun x hx q hq => ?_) hp
  obtain ⟨heq, hstems⟩ := hsame x hx q hq
  rw [← heq]
  exact (addArrival_alike hs hfits hq hstems).map fun r hr => hr

theorem originArrival_exact {time : Time} (htime : time ∈ s.times) {leg : StreetLeg}
    (hleg : leg ∈ s.origin) (iteration : Nat) :
    s.originArrival time iteration leg = s.exact.originArrival time iteration leg
      ∧ s.Stems (s.originArrival time iteration leg) := by
  obtain ⟨hduration, hlongest⟩ := hs.le_longestLeg (Or.inl hleg)
  obtain ⟨hslack, hwalk, -⟩ := hs.nonneg
  have ht : time ∈ s.times ++ s.callTimes := List.mem_append_left _ htime
  have hadvance := hfits.advance_exact ht hduration (by unfold leeway; grind)
  refine ⟨?_, ⟨time, ht, fun hround => absurd hround (Nat.lt_irrefl 0), leg.duration, hduration,
    hlongest, hadvance⟩, fun {d} hkind => ?_⟩
  · simp only [originArrival, hadvance]
    rfl
  · obtain rfl := ArrivalKind.access.inj hkind
    exact ⟨rfl, hduration, hlongest⟩

theorem seed_alike (hp : s.Timely p) {time : Time} (htime : time ∈ s.times) :
    Alike s.Timely (s.seed p time) (s.exact.seed p time) :=
  addAll_alike hs hfits hp fun _ hleg _ _ => originArrival_exact hs hfits htime hleg _

theorem walkArrival_exact (ha : s.Stems a) (hride : a.isTransit = true) (id : Nat) {k : Transfer}
    (hk : k ∈ s.heading.walks s.timetable a.stop) :
    s.walkArrival id a k = s.exact.walkArrival id a k ∧ s.Stems (s.walkArrival id a k) := by
  obtain ⟨hduration, hlongest⟩ := hs.le_longestWalk_of_walks hk
  obtain ⟨hslack, hwalk, hleg⟩ := hs.nonneg
  obtain ⟨halight, halight'⟩ := hs.alightSlack
  have hreach : s.reach a.kind = s.heading.alightSlack := by
    unfold StopArrival.isTransit at hride
    unfold reach
    cases hkind : a.kind <;> simp [hkind] at hride ⊢
  have hadvance := ha.advance_exact hfits hduration (by rw [hreach]; unfold leeway; grind)
  obtain ⟨t, ht, hcall, distance, hdistance, hused, htime⟩ := ha.near
  refine ⟨?_, ⟨t, ht, hcall, distance + k.duration, by grind, ?_, ?_⟩, fun hkind => by cases hkind⟩
  · simp only [walkArrival, hadvance]
    rfl
  · simp only [walkArrival, reach]
    grind
  · exact hadvance.trans (by rw [htime, Heading.advance_advance])

theorem walkFrom_alike (hp : s.Timely p) (id : Nat) :
    Alike s.Timely (s.walkFrom p id) (s.exact.walkFrom p id) := by
  unfold walkFrom
  split
  case isFalse => exact alike_ok hp
  case isTrue =>
    refine Alike.bind (I := s.Stems) (alike_of_eq rfl fun a ha => ?_) fun a ha => ?_
    · exact hp.arrivals (StopTable.arrival_eq_ok_iff.mp ha)
    · split
      case isFalse => exact alike_ok hp
      case isTrue hride =>
        exact addAll_alike hs hfits hp fun k hk _ _ => walkArrival_exact hs hfits ha hride id hk

theorem transferPhase_alike (hp : s.Timely p) (round : Nat) :
    Alike s.Timely (s.transferPhase round p) (s.exact.transferPhase round p) :=
  alike_foldlM (fun id _ _ hq => walkFrom_alike hs hfits hq id) hp

theorem journeyFrom_exact (ha : s.Stems a) (hround : 0 < a.round) (id : Nat) {duration : Time}
    (hduration : duration ∈ s.targetDurations a.stop) :
    s.journeyFrom id a duration = s.exact.journeyFrom id a duration := by
  obtain ⟨leg, hleg, rfl⟩ := List.mem_map.mp hduration
  obtain ⟨hnonneg, hlongest⟩ := hs.le_longestLeg (Or.inr (List.mem_filter.mp hleg).1)
  simp only [journeyFrom, ha.advance_leg hs hfits hround hnonneg hlongest]
  rfl

theorem reachDestination_exact (ha : s.Stems a) (hround : 0 < a.round) (p : Progress) (id : Nat) :
    s.reachDestination p id a = s.exact.reachDestination p id a := by
  unfold reachDestination
  refine List.foldl_ext _ _ p fun q duration hduration => ?_
  rw [journeyFrom_exact hs hfits ha hround id hduration]
  rfl

end Arrivals

section Scan

open Fallible

variable {v : PatternView} {round position stop : Nat}
  (hs : s.WellFormed) (hfits : s.Fits searchDate) (hv : v ∈ s.viewList)

include hs hfits hv

theorem board_exact (hround : 0 < round) {l : Label} (hl : s.Stems l.arrival)
    (hbefore : l.arrival.round = round - 1) :
    s.board v round position l = s.exact.board v round position l := by
  have hcosts : ∀ {c : Catchable}, c.time ∈ s.callTimes →
      s.boardingCost l.arrival c.time round = s.exact.boardingCost l.arrival c.time round
        ∧ s.originTimeOf l.arrival c.time = s.exact.originTimeOf l.arrival c.time := by
    intro c hc
    refine ⟨?_, ?_⟩
    · unfold boardingCost
      split
      · rfl
      · rw [(hl.fitsAfter hs hfits).wait_exact (by omega) hc]
        rfl
    · unfold originTimeOf
      cases hkind : l.arrival.kind with
      | access d =>
          obtain ⟨-, hd, hlongest⟩ := hl.street hkind
          exact hfits.originTime_exact hs hc hd hlongest
      | transit pattern trip board position => rfl
      | transfer fromStop d => rfl
  unfold board
  rw [← (hl.fitsAfter hs hfits).boardLimit_exact]
  change (v.findBoarding s.heading s.filter position _ >>= _)
    = (v.findBoarding s.heading s.filter position _ >>= _)
  cases hfound : v.findBoarding s.heading s.filter position (s.heading.boardLimit l.arrival.time) with
  | error e => rfl
  | ok found =>
      cases found with
      | none => rfl
      | some c =>
          obtain ⟨stop, -, hfacts, -⟩ := PatternView.findBoarding_eq_ok hfound
          obtain ⟨hmem, call, hcatch, htime⟩ := hfacts c rfl
          have hc : c.time ∈ s.callTimes :=
            htime ▸ boardTime_mem hv (mem_schedules.mp hmem) hcatch.stands
          obtain ⟨hcost, horigin⟩ := hcosts hc
          simp only [bind, Except.bind, hcost, horigin]

theorem boardAll_exact (hround : 0 < round) {labels : List Label}
    (hlabels : ∀ l ∈ labels, s.Stems l.arrival ∧ l.arrival.round = round - 1) :
    s.boardAll v round position labels = s.exact.boardAll v round position labels := by
  induction labels with
  | nil => rfl
  | cons l ls ih =>
      obtain ⟨⟨hstems, hbefore⟩, hls⟩ := List.forall_mem_cons.mp hlabels
      unfold boardAll
      rw [board_exact hs hfits hv hround hstems hbefore, ih hls]

theorem alightArrival_exact {b : Boarding} {d : DayTrip} {boardCall call : Call} {iteration : Nat}
    (hd : PatternView.tripIn? v.days b.trip = some d) (hboard : d.calls[b.position]? = some boardCall)
    (hcall : d.calls[position]? = some call) :
    s.alightArrival v round position stop iteration b boardCall call
        = s.exact.alightArrival v round position stop iteration b boardCall call
      ∧ s.Stems (s.alightArrival v round position stop iteration b boardCall call) := by
  have hleft := mem_callTimes hv hd hcall
  have halight := hfits.alightTime_exact hs hleft.2
  have hride := hfits.inVehicle_exact hs (mem_callTimes hv hd hboard) hleft
  have htime : ∃ t ∈ s.callTimes,
      s.heading.alightTime call = s.exact.heading.advance t s.heading.alightSlack := by
    rw [halight]
    unfold Heading.alightTime Heading.advance Heading.alightSlack
    simp only [exact, Heading.exact, Heading.keep]
    cases s.heading.direction with
    | forward => exact ⟨_, hleft.1, (Int.add_zero _).symm⟩
    | reverse => exact ⟨_, hleft.2, rfl⟩
  obtain ⟨t, ht, htime⟩ := htime
  refine ⟨?_, ⟨t, List.mem_append_right _ ht, fun _ => ht, s.heading.alightSlack, hs.alightSlack.1,
    Int.le_refl _, htime⟩, fun hkind => by cases hkind⟩
  simp only [alightArrival, halight, hride]
  rfl

theorem alight_alike (hround : 0 < round) (hp : s.Timely p) (b : Boarding) :
    Alike s.Timely (s.alight v round position stop p b) (s.exact.alight v round position stop p b) := by
  unfold alight
  refine Alike.bind (I := fun d => PatternView.tripIn? v.days b.trip = some d)
    (alike_of_eq rfl fun d hd => tripAt_eq_ok hd) fun d hd => ?_
  refine Alike.bind (I := fun c => d.calls[position]? = some c)
    (alike_of_eq rfl fun c hc => call_eq_ok hc) fun call hcall => ?_
  refine alike_ite (fun _ => ?_) fun _ => alike_ok hp
  refine Alike.bind (I := fun c => d.calls[b.position]? = some c)
    (alike_of_eq rfl fun c hc => call_eq_ok hc) fun boardCall hboard => ?_
  obtain ⟨halight, hstems⟩ := alightArrival_exact hs hfits hv hd hboard hcall
  dsimp only
  rw [← halight]
  refine (addArrival_alike hs hfits hp hstems).bind fun ⟨q, result⟩ hq => ?_
  cases result with
  | none => exact alike_ok hq
  | some id =>
      dsimp only
      rw [← reachDestination_exact hs hfits hstems hround]
      refine alike_ok ?_
      unfold Timely
      rwa [table_reachDestination]

theorem scanStop_alike (hround : 0 < round) {state : Progress × List Boarding}
    (hp : s.Timely state.1) (entry : Nat × Nat) :
    Alike (fun state => s.Timely state.1) (s.scanStop v round state entry)
      (s.exact.scanStop v round state entry) := by
  obtain ⟨p, onboard⟩ := state
  obtain ⟨stop, position⟩ := entry
  unfold scanStop
  dsimp only
  refine alike_ite (fun _ => ?_) fun _ => alike_ok hp
  refine (alike_foldlM (fun b _ q hq => alight_alike hs hfits hv hround hq b) hp).bind fun q hq => ?_
  refine Alike.bind
    (I := fun labels => ∀ l ∈ labels, s.Stems l.arrival ∧ l.arrival.round = round - 1)
    (alike_of_eq rfl fun labels hlabels => ?_) fun labels hlabels => ?_
  · simp only [StopTable.newLabelsAt, bind_eq_ok, pure_eq_ok] at hlabels
    obtain ⟨all, hall, rfl⟩ := hlabels
    exact fun l hl => hq.listed (StopTable.front_eq_ok hall) l (List.mem_filter.mp hl).1
  · rw [boardAll_exact hs hfits hv hround hlabels]
    exact Alike.bind (I := fun _ => True) (alike_of_eq rfl fun _ _ => trivial) fun _ _ => alike_ok hq

end Scan

section Rounds

open Fallible

variable {round : Nat} (hs : s.WellFormed) (hfits : s.Fits searchDate)

include hs hfits

theorem scanPattern_alike (hround : 0 < round) (hp : s.Timely p) (pattern : Nat) :
    Alike s.Timely (s.scanPattern round p pattern) (s.exact.scanPattern round p pattern) := by
  unfold scanPattern
  refine Alike.bind (I := fun v => v ∈ s.viewList)
    (alike_of_eq rfl fun v hv => List.mem_of_getElem? (view_eq_ok hv)) fun v hv => ?_
  split
  case isTrue => exact alike_ok hp
  case isFalse =>
    exact (alike_foldlM (fun entry _ _ hstate => scanStop_alike hs hfits hv hround hstate entry)
      hp).bind fun _ hstate => alike_ok hstate

theorem playRound_alike (hround : 0 < round) (hp : s.Timely p) :
    Alike s.Timely (s.playRound round p) (s.exact.playRound round p) := by
  have htransit : Alike s.Timely (s.transitPhase round p) (s.exact.transitPhase round p) :=
    Alike.bind (I := fun _ => True) (alike_of_eq rfl fun _ _ => trivial) fun patterns _ =>
      alike_foldlM (fun i _ _ hq => scanPattern_alike hs hfits hround hq i) hp
  exact htransit.bind fun q hq => (transferPhase_alike hs hfits hq round).bind fun q hq => alike_ok hq

theorem playRounds_alike (hround : 0 < round) (hp : s.Timely p) (count : Nat) :
    Alike (fun r => s.Timely r.2) (s.playRounds count round p) (s.exact.playRounds count round p) := by
  induction count generalizing round p with
  | zero => exact alike_ok hp
  | succ count ih =>
      unfold playRounds
      split
      case isTrue => exact alike_ok hp
      case isFalse =>
        rw [show s.exact.ask p = s.ask p from rfl]
        have hasked : s.Timely (s.ask p).2 := hp
        generalize s.ask p = asked at hasked ⊢
        obtain ⟨verdict, p₁⟩ := asked
        cases verdict with
        | some reason => exact alike_ok (I := fun r : Option SearchStatus × Progress => s.Timely r.2) hasked
        | none =>
            exact (playRound_alike hs hfits hround hasked).bind fun q hq => ih (Nat.succ_pos _) hq

theorem iterations_alike {times : List Time} (htimes : ∀ time ∈ times, time ∈ s.times)
    (hp : s.Timely p) :
    Alike (fun r => s.Timely r.2) (s.iterations times p) (s.exact.iterations times p) := by
  induction times generalizing p with
  | nil => exact alike_ok hp
  | cons time times ih =>
      obtain ⟨htime, htimes⟩ := List.forall_mem_cons.mp htimes
      unfold iterations
      rw [show s.exact.ask p = s.ask p from rfl]
      have hasked : s.Timely (s.ask p).2 := hp
      generalize s.ask p = asked at hasked ⊢
      obtain ⟨verdict, p₁⟩ := asked
      cases verdict with
      | some reason => exact alike_ok (I := fun r : SearchStatus × Progress => s.Timely r.2) hasked
      | none =>
          have hbegin : s.Timely (begin p₁ time) := ⟨hasked.arrivals, hasked.listed⟩
          refine (seed_alike hs hfits hbegin htime).bind fun q hq => ?_
          refine (playRounds_alike hs hfits Nat.one_pos hq s.maxRounds).bind fun ended hq => ?_
          obtain ⟨stopped, q⟩ := ended
          cases stopped with
          | some reason => exact alike_ok (I := fun r : SearchStatus × Progress => s.Timely r.2) hq
          | none => exact ih htimes hq

theorem run_alike : Alike (fun r => s.Timely r.2) s.run s.exact.run :=
  iterations_alike hs hfits (fun _ h => h) (StopTable.all_empty ..)

end Rounds

end Search
end JourneyPlanner
