import JourneyPlanner.Proofs.Admissible
import JourneyPlanner.Proofs.SingleIterations

/-!
What it is worth to be at a stop no later and no more expensively than somebody else.
Where trips do not overtake each other one is no later at any stop further on either. But
whoever is early may wait longer, ride longer and pay for a discouraged change, and so
may come there more expensively; how much more is bounded by how early one is and how
early one's trip leaves.
-/

namespace JourneyPlanner

namespace Heading

variable {h : Heading} {a b t t' : Time}

/-- Seconds from one time to another one in search direction. -/
def lead (h : Heading) (a b : Time) : Time :=
  match h.direction with
  | .forward => b - a
  | .reverse => a - b

theorem eq_of_betterOrEqual (hab : h.betterOrEqual a b = true) (hba : h.betterOrEqual b a = true) :
    a = b := by
  unfold betterOrEqual at hab hba
  cases hd : h.direction <;> simp only [hd, decide_eq_true_eq] at hab hba <;> grind

theorem lead_nonneg (hab : h.betterOrEqual a b = true) : 0 ≤ h.lead a b := by
  unfold betterOrEqual at hab
  unfold Heading.lead
  cases hd : h.direction <;> simp only [hd, decide_eq_true_eq] at hab ⊢ <;> grind

@[simp]
theorem lead_self (h : Heading) (a : Time) : h.lead a a = 0 := by
  unfold Heading.lead
  cases h.direction <;> exact Int.sub_self a

/-- Who is early waits as much longer, less what the trip leaves earlier. -/
theorem wait_add_lead (hx : h.IsExact) (a b t t' : Time) :
    h.wait a t + h.lead t t' = h.wait b t' + h.lead a b := by
  unfold wait Heading.lead
  cases h.direction <;> simp only [hx.keep] <;> grind

theorem wait_nonneg (hx : h.IsExact) (hlimit : h.betterOrEqual (h.boardLimit a) t = true) :
    0 ≤ h.wait a t := by
  unfold betterOrEqual boardLimit at hlimit
  unfold wait
  cases hd : h.direction <;> simp only [hd, hx.keep, decide_eq_true_eq] at hlimit ⊢ <;> grind

/-- Who is there no later rides no longer than the trip leaves earlier. -/
theorem inVehicle_le (hx : h.IsExact) {call call' : Call} (board board' : Call)
    (halight : h.betterOrEqual (h.alightTime call) (h.alightTime call') = true) :
    h.inVehicle board call
      ≤ h.inVehicle board' call' + h.lead (h.boardTime board) (h.boardTime board') := by
  unfold betterOrEqual alightTime at halight
  unfold inVehicle Heading.lead boardTime
  cases hd : h.direction <;> simp only [hd, hx.keep, decide_eq_true_eq] at halight ⊢ <;> grind

end Heading

/-- Where trips do not overtake each other, a trip that is caught earlier is not left later. -/
theorem PatternView.IsOrderly.alightTime_better {v : PatternView} (ho : v.IsOrderly) {h : Heading}
    (hx : h.IsExact) {d d' : DayTrip} (hd : d ∈ v.trips) (hd' : d' ∈ v.trips) {i j : Nat}
    (hij : h.Precedes i j) (hi : i < v.stops.size) (hj : j < v.stops.size) {board call board' call' : Call}
    (hboard : d.calls[i]? = some board) (hcall : d.calls[j]? = some call)
    (hboard' : d'.calls[i]? = some board') (hcall' : d'.calls[j]? = some call')
    (hearlier : h.betterOrEqual (h.boardTime board') (h.boardTime board) = false) :
    h.betterOrEqual (h.alightTime call) (h.alightTime call') = true := by
  unfold Heading.Precedes at hij
  unfold Heading.betterOrEqual Heading.boardTime at hearlier
  unfold Heading.betterOrEqual Heading.alightTime
  cases hdirection : h.direction <;>
    simp only [hdirection, hx.keep, decide_eq_true_eq, decide_eq_false_iff_not, Int.not_le]
      at hij hearlier ⊢
  · exact ho.inTurn d hd d' hd' j hj i hij board hboard board' hboard' call hcall call' hcall'
      (Int.le_of_lt hearlier)
  · -- a trip that leaves earlier is not there later
    by_contra hlater
    have harrives := ho.inTurn d hd d' hd' i hi j hij call hcall call' hcall' board hboard
      board' hboard' (by grind)
    grind

namespace Search

variable {s : Search} {v : PatternView} {w w' : Way} {i j iteration : Nat} {a b : StopArrival}

/-- The arrival on catching the best trip of a pattern at one position after a way and
leaving it at another one. -/
def rideAfter? (s : Search) (v : PatternView) (i j iteration : Nat) (w : Way) :
    Option StopArrival := do
  let caught ← s.caught? v (w.arrival.round + 1) i w
  let stop ← v.stops[j]?
  s.left? v (w.arrival.round + 1) j stop iteration caught.2

/-- When the trip was caught by which an arrival came. -/
def caughtAt? (s : Search) (v : PatternView) (a : StopArrival) : Option Time :=
  match a.kind with
  | .transit _ trip position _ => do
    let d ← PatternView.tripIn? v.days trip
    let call ← d.calls[position]?
    return s.heading.boardTime call
  | _ => none

theorem Rides.caughtAt? {b : Boarding} {position : Nat} {d : DayTrip} {boardCall call : Call}
    (hr : s.Rides v w b position a d boardCall call) :
    s.caughtAt? v a = some (s.heading.boardTime boardCall) := by
  simp only [Search.caughtAt?, hr.kind, hr.trip, hr.boards, Option.bind_eq_bind, Option.bind_some,
    Option.pure_def]

theorem rideAfter?_eq_some (hv : v ∈ s.viewList) (hi : v.stops[i]? = some w.arrival.stop)
    (h : s.rideAfter? v i j iteration w = some a) : ∃ b d boardCall call,
      s.Rides v w b j a d boardCall call ∧ b.position = i ∧ v.stops[j]? = some a.stop
      ∧ a.round = w.arrival.round + 1
      ∧ v.findBoarding s.heading s.filter i (s.heading.boardLimit w.arrival.time)
        = .ok (some ⟨b.trip, d, s.heading.boardTime boardCall⟩) := by
  simp only [rideAfter?, Option.bind_eq_bind, Option.bind_eq_some_iff] at h
  obtain ⟨⟨w', b⟩, hcaught, stop, hstop, hleft⟩ := h
  obtain rfl : w' = w := caught?_way hcaught
  obtain rfl := caught?_position hcaught
  obtain ⟨d, boardCall, call, hr⟩ := rides_of_left? ⟨hv, hi, hcaught⟩ hleft
  obtain ⟨hround, rfl, -, -⟩ := left?_round hleft
  refine ⟨b, d, boardCall, call, hr, rfl, hstop, hround, ?_⟩
  obtain ⟨c, hfound, hb⟩ := caught?_eq_some hcaught
  obtain ⟨_, -, hfacts, -⟩ := PatternView.findBoarding_eq_ok hfound
  obtain ⟨hmem, boardCall', hcatch, htime⟩ := hfacts c rfl
  have hindex : b.trip = c.index := by rw [hb]
  have htrip : d = c.trip :=
    Option.some.inj (hr.trip.symm.trans (hindex ▸ mem_schedules.mp hmem))
  obtain rfl : boardCall' = boardCall :=
    Option.some.inj (hcatch.stands.symm.trans (htrip ▸ hr.boards))
  rw [hfound, hindex, htrip, ← htime]

section Cost

/-- What one second of waiting before the next trip costs after so many rides; nobody
waits for the first trip. -/
def waitRate (s : Search) (round : Nat) : Nat :=
  if round = 0 then 0 else s.rates.wait

/-- What catching the next trip costs after so many rides, whoever catches it. -/
def boardRate (s : Search) (round : Nat) : Nat :=
  if round = 0 then s.rates.board else s.rates.board + s.rates.transfer

/-- The penalty for changing where that is discouraged. -/
def changePenalty (s : Search) (a : StopArrival) : Nat :=
  if a.round ≠ 0 ∧ s.isDiscouraged a = true then s.rates.discouraged else 0

/-- The most that going on from an arrival can cost more than going on from another one at
the same stop, if the trips are caught at these times: waiting for as long as one is ahead
and riding for as long as the trip is, and the penalty for a discouraged change. -/
def surcharge (s : Search) (a b : StopArrival) (caught caught' : Time) : Nat :=
  s.waitRate a.round * (s.heading.lead a.time b.time).toNat
    + (s.rates.transit - s.waitRate a.round) * (s.heading.lead caught caught').toNat
    + (s.changePenalty a - s.changePenalty b)

theorem plus_boardingCost (s : Search) (c : Cost) (a : StopArrival) (time : Time) :
    Cost.plus c (s.boardingCost a time (a.round + 1)) = min Json.greatestWord
      (c + s.boardRate a.round + s.waitRate a.round * (s.heading.wait a.time time).toNat
        + s.changePenalty a) := by
  unfold boardingCost boardRate waitRate changePenalty
  by_cases hround : a.round = 0
  · simp only [hround, Nat.zero_add, if_true, CostRates.firstBoarding, Cost.plus, Nat.zero_mul,
      ne_eq, not_true_eq_false, false_and, if_false, Nat.add_zero]
    exact Nat.min_comm ..
  · have hlater : a.round + 1 ≠ 1 := by omega
    simp only [hround, hlater, if_false, CostRates.changing, Cost.plus, Cost.times,
      CostRates.seconds, ne_eq, not_false_eq_true, true_and]
    generalize s.rates.wait * (s.heading.wait a.time time).toNat = waiting
    delta Cost at *
    omega

/-- What an arrival by a trip cost in all. -/
theorem Rides.total_cost {b : Boarding} {position : Nat} {d : DayTrip} {boardCall call : Call}
    (hr : s.Rides v w b position a d boardCall call) :
    a.cost = min Json.greatestWord (w.arrival.cost + s.boardRate w.arrival.round
      + s.waitRate w.arrival.round
        * (s.heading.wait w.arrival.time (s.heading.boardTime boardCall)).toNat
      + s.changePenalty w.arrival
      + s.rates.transit * (s.heading.inVehicle boardCall call).toNat) := by
  rw [hr.cost, plus_boardingCost]
  simp only [Cost.plus, CostRates.riding, Cost.times, CostRates.seconds]
  generalize s.rates.transit * (s.heading.inVehicle boardCall call).toNat = riding
  delta Cost at *
  omega

/-- Waiting and riding of one who is `ahead` and catches a trip `before` another one. -/
theorem weigh_le (waitRate rideRate : Nat) {wait wait' ride ride' ahead before : Nat}
    (hwait : wait + before = wait' + ahead) (hride : ride ≤ ride' + before) :
    waitRate * wait + rideRate * ride
      ≤ waitRate * wait' + rideRate * ride' + waitRate * ahead
        + (rideRate - waitRate) * before := by
  have hrides : rideRate * ride ≤ rideRate * ride' + rideRate * before := by
    rw [← Nat.mul_add]
    exact Nat.mul_le_mul_left _ hride
  have hrate : rideRate * before ≤ waitRate * before + (rideRate - waitRate) * before := by
    rw [← Nat.add_mul]
    exact Nat.mul_le_mul_right _ (by omega)
  have hwaits : waitRate * wait + waitRate * before = waitRate * wait' + waitRate * ahead := by
    rw [← Nat.mul_add, ← Nat.mul_add, hwait]
  omega

/-- Nobody waits for the first trip, so what does not fit there does not matter. -/
theorem waitRate_exact {a : StopArrival} (ha : s.FitsAfter a) {boardTime : Time}
    (ht : boardTime ∈ s.callTimes) :
    s.waitRate a.round * (s.heading.wait a.time boardTime).toNat
      = s.waitRate a.round * (s.exact.heading.wait a.time boardTime).toNat := by
  cases hround : a.round with
  | zero => simp only [waitRate, if_true, Nat.zero_mul]
  | succ round => rw [ha.wait_exact (by omega) ht]

/-- Of two who are at a stop after as many rides, the one who is there no later and no more
expensively comes on no more expensively than the other one but for the surcharge. -/
theorem Rides.cost_le (hs : s.WellFormed) {searchDate : Date} (hfits : s.Fits searchDate)
    (hv : v ∈ s.viewList) (ha : s.FitsAfter w.arrival) (ha' : s.FitsAfter w'.arrival)
    {b b' : Boarding} {d d' : DayTrip} {boardCall call boardCall' call' : Call}
    {a' : StopArrival} (hr : s.Rides v w b j a d boardCall call)
    (hr' : s.Rides v w' b' j a' d' boardCall' call') (hround : w.arrival.round = w'.arrival.round)
    (htime : s.heading.betterOrEqual w.arrival.time w'.arrival.time = true)
    (hcost : w.arrival.cost ≤ w'.arrival.cost)
    (hboard : s.heading.betterOrEqual (s.heading.boardTime boardCall)
      (s.heading.boardTime boardCall') = true)
    (halight : s.heading.betterOrEqual (s.heading.alightTime call)
      (s.heading.alightTime call') = true) :
    a.cost ≤ a'.cost + s.surcharge w.arrival w'.arrival (s.heading.boardTime boardCall)
      (s.heading.boardTime boardCall') := by
  have hx := s.heading.isExact_exact
  have hboards := mem_callTimes hv hr.trip hr.boards
  have hboards' := mem_callTimes hv hr'.trip hr'.boards
  have hleaves := mem_callTimes hv hr.trip hr.leaves
  have hleaves' := mem_callTimes hv hr'.trip hr'.leaves
  rw [hfits.alightTime_exact hs hleaves.2, hfits.alightTime_exact hs hleaves'.2] at halight
  have hlimit := hr.inTime
  have hlimit' := hr'.inTime
  rw [ha.boardLimit_exact] at hlimit
  rw [ha'.boardLimit_exact] at hlimit'
  have hwait : s.exact.heading.wait w.arrival.time (s.heading.boardTime boardCall)
        + s.heading.lead (s.heading.boardTime boardCall) (s.heading.boardTime boardCall')
      = s.exact.heading.wait w'.arrival.time (s.heading.boardTime boardCall')
        + s.heading.lead w.arrival.time w'.arrival.time := Heading.wait_add_lead hx ..
  have hride : s.exact.heading.inVehicle boardCall call
      ≤ s.exact.heading.inVehicle boardCall' call'
        + s.heading.lead (s.heading.boardTime boardCall) (s.heading.boardTime boardCall') :=
    Heading.inVehicle_le hx boardCall boardCall' halight
  have hpos : 0 ≤ s.exact.heading.wait w.arrival.time (s.heading.boardTime boardCall) :=
    Heading.wait_nonneg hx hlimit
  have hpos' : 0 ≤ s.exact.heading.wait w'.arrival.time (s.heading.boardTime boardCall') :=
    Heading.wait_nonneg hx hlimit'
  have hahead := Heading.lead_nonneg htime
  have hbefore := Heading.lead_nonneg hboard
  have hwaited : (s.exact.heading.wait w.arrival.time (s.heading.boardTime boardCall)).toNat
      + (s.heading.lead (s.heading.boardTime boardCall) (s.heading.boardTime boardCall')).toNat
      = (s.exact.heading.wait w'.arrival.time (s.heading.boardTime boardCall')).toNat
        + (s.heading.lead w.arrival.time w'.arrival.time).toNat := by grind
  have hrode : (s.exact.heading.inVehicle boardCall call).toNat
      ≤ (s.exact.heading.inVehicle boardCall' call').toNat
        + (s.heading.lead (s.heading.boardTime boardCall)
            (s.heading.boardTime boardCall')).toNat := by
    grind
  have hweigh := weigh_le (s.waitRate w.arrival.round) s.rates.transit hwaited hrode
  rw [hr.total_cost, hr'.total_cost, waitRate_exact ha (boardTime_mem hv hr.trip hr.boards),
    waitRate_exact ha' (boardTime_mem hv hr'.trip hr'.boards), hfits.inVehicle_exact hs hboards hleaves,
    hfits.inVehicle_exact hs hboards' hleaves', ← hround]
  unfold surcharge
  delta Cost at *
  omega

end Cost

/-- Every trip of a view may be caught and left wherever it calls. -/
def Takes (s : Search) (v : PatternView) : Prop :=
  ∀ d ∈ v.trips, ∀ (position stop : Nat) (call : Call), d.calls[position]? = some call →
    s.filter.accepts d.trip position stop = true

theorem size_of_mem_schedules (hs : s.WellFormed) (hv : v ∈ s.viewList) {e : DayTrip × Nat}
    (he : e ∈ v.schedules) : e.1.calls.size = v.stops.size :=
  (hs.complete v hv e.2 e.1 (mem_schedules.mp he)).1

/-- Who is at a stop no later than somebody who catches a trip there finds a trip that leaves
no later. -/
theorem findBoarding_no_later (hs : s.WellFormed) (hv : v ∈ s.viewList)
    (ha : s.FitsAfter w.arrival) (ha' : s.FitsAfter w'.arrival)
    (hi : v.stops[i]? = some w'.arrival.stop)
    (htime : s.heading.betterOrEqual w.arrival.time w'.arrival.time = true)
    {d' : DayTrip} {boardCall' call' : Call} {b' : Boarding}
    (hr' : s.Rides v w' b' j b d' boardCall' call') (hposition : b'.position = i) :
    ∃ c, v.findBoarding s.heading s.filter i (s.heading.boardLimit w.arrival.time) = .ok (some c)
      ∧ s.heading.betterOrEqual c.time (s.heading.boardTime boardCall') = true := by
  have hisize : i < v.stops.size := (Array.getElem?_eq_some_iff.mp hi).1
  have hcalls : ∀ e ∈ v.schedules, i < e.1.calls.size := fun e he =>
    size_of_mem_schedules hs hv he ▸ hisize
  obtain ⟨found, hfound⟩ : ∃ found, v.findBoarding s.heading s.filter i
      (s.heading.boardLimit w.arrival.time) = .ok found :=
    PatternView.findBoarding_succeeds hisize hcalls
  obtain ⟨stop, hboardStop, -, hbest⟩ := PatternView.findBoarding_eq_ok hfound
  obtain rfl : w'.arrival.stop = stop := Option.some.inj (hi.symm.trans hboardStop)
  have hlimit : s.heading.betterOrEqual (s.heading.boardLimit w.arrival.time)
      (s.heading.boardLimit w'.arrival.time) = true := by
    rw [ha.boardLimit_exact, ha'.boardLimit_exact]
    exact Heading.boardLimit_better s.heading.isExact_exact htime
  obtain ⟨c, rfl, hbetter⟩ := hbest (d', b'.trip) (mem_schedules.mpr hr'.trip) boardCall'
    ⟨hposition ▸ hr'.boards, s.heading.betterOrEqual_trans hlimit hr'.inTime, hr'.boardRule,
      hposition ▸ hr'.boardAccepted⟩
  exact ⟨c, hfound, hbetter⟩

/-- Where every trip may be left wherever it calls, what is found is caught and left. -/
theorem rideAfter?_of_findBoarding (hs : s.WellFormed) (hv : v ∈ s.viewList) (ho : v.IsOrderly)
    (hopen : s.Takes v) (hi : v.stops[i]? = some w.arrival.stop) {stop : Nat}
    (hj : v.stops[j]? = some stop) {c : Catchable} (hfound : v.findBoarding s.heading s.filter i
      (s.heading.boardLimit w.arrival.time) = .ok (some c)) :
    ∃ a b d boardCall call, s.rideAfter? v i j iteration w = some a
      ∧ s.Rides v w b j a d boardCall call ∧ a.stop = stop ∧ b.position = i
      ∧ c = ⟨b.trip, d, s.heading.boardTime boardCall⟩ := by
  obtain ⟨_, -, hfacts, -⟩ := PatternView.findBoarding_eq_ok hfound
  obtain ⟨hmem, boardCall, hcatch, -⟩ := hfacts c rfl
  have htrip := mem_schedules.mp hmem
  have hd : c.trip ∈ v.trips := PatternView.mem_trips.mpr ⟨c.index, htrip⟩
  have hsize : j < c.trip.calls.size :=
    size_of_mem_schedules hs hv hmem ▸ (Array.getElem?_eq_some_iff.mp hj).1
  have hcall : c.trip.calls[j]? = some c.trip.calls[j] := Array.getElem?_eq_getElem hsize
  have hrule : (s.heading.alightRule c.trip.calls[j]).isRoutable = true := by
    obtain ⟨hpickup, hdropOff⟩ := ho.routable c.trip hd _ (Array.getElem_mem hsize)
    unfold Heading.alightRule
    cases s.heading.direction
    · exact hdropOff
    · exact hpickup
  obtain ⟨b, hb, hindex, hposition⟩ : ∃ b, s.caught? v (w.arrival.round + 1) i w = some (w, b)
      ∧ b.trip = c.index ∧ b.position = i := caught?_of_findBoarding hfound
  have hride : s.rideAfter? v i j iteration w = some (s.alightArrival v (w.arrival.round + 1) j
      stop iteration b boardCall c.trip.calls[j]) := by
    simp only [rideAfter?, hb, hj, left?, hindex, hposition, htrip, hcall, hcatch.stands, hrule,
      hopen c.trip hd j stop _ hcall, Option.bind_eq_bind, Option.bind_some, Bool.and_self,
      if_true]
  obtain ⟨b₀, d, boardCall₀, call, hr, hposition₀, -, -, hfound₀⟩ :=
    rideAfter?_eq_some hv hi hride
  rw [hfound, Except.ok.injEq, Option.some_inj] at hfound₀
  exact ⟨_, b₀, d, boardCall₀, call, hride, hr, rfl, hposition₀, hfound₀⟩

/-- Who is at a stop no later than somebody else finds a trip that leaves no later, and is
no later wherever the other one gets off. -/
theorem rideAfter?_no_later (hs : s.WellFormed) {searchDate : Date} (hfits : s.Fits searchDate)
    (hv : v ∈ s.viewList) (ha : s.FitsAfter w.arrival) (ha' : s.FitsAfter w'.arrival)
    (ho : v.IsOrderly) (hopen : s.Takes v) (hi : v.stops[i]? = some w'.arrival.stop)
    (hij : s.heading.Precedes i j) (hstop : w.arrival.stop = w'.arrival.stop)
    (htime : s.heading.betterOrEqual w.arrival.time w'.arrival.time = true)
    {d' : DayTrip} {boardCall' call' : Call} {b' : Boarding}
    (hr' : s.Rides v w' b' j b d' boardCall' call') (hposition : b'.position = i)
    (hj : v.stops[j]? = some b.stop)
    (hfound' : v.findBoarding s.heading s.filter i (s.heading.boardLimit w'.arrival.time)
      = .ok (some ⟨b'.trip, d', s.heading.boardTime boardCall'⟩)) :
    ∃ a b'' d boardCall call, s.rideAfter? v i j iteration w = some a
      ∧ s.Rides v w b'' j a d boardCall call ∧ a.stop = b.stop
      ∧ s.heading.betterOrEqual (s.heading.boardTime boardCall)
        (s.heading.boardTime boardCall') = true
      ∧ (w.arrival.time = w'.arrival.time →
        s.heading.boardTime boardCall = s.heading.boardTime boardCall')
      ∧ s.heading.betterOrEqual (s.heading.alightTime call)
        (s.heading.alightTime call') = true := by
  obtain ⟨c, hfound, hbetter⟩ := findBoarding_no_later hs hv ha ha' hi htime hr' hposition
  obtain ⟨a, b₀, d, boardCall, call, hride, hr, hplace, hposition₀, rfl⟩ :=
    rideAfter?_of_findBoarding hs hv ho hopen (hstop ▸ hi) hj hfound
  refine ⟨a, b₀, d, boardCall, call, hride, hr, hplace, hbetter, fun hequal => ?_, ?_⟩
  · rw [hequal, hfound', Except.ok.injEq, Option.some_inj, Catchable.mk.injEq] at hfound
    exact hfound.2.2.symm
  -- one of two trips that leave together is caught by both, otherwise the order decides
  by_cases hequal : s.heading.boardTime boardCall = s.heading.boardTime boardCall'
  · obtain rfl : d = d' :=
      congrArg Catchable.trip (PatternView.findBoarding_eq_of_time hfound hfound' hequal)
    obtain rfl := Option.some.inj (hr.leaves.symm.trans hr'.leaves)
    exact s.heading.betterOrEqual_refl _
  · have hd := PatternView.mem_trips.mpr ⟨b₀.trip, hr.trip⟩
    have hd' := PatternView.mem_trips.mpr ⟨b'.trip, hr'.trip⟩
    rw [hfits.alightTime_exact hs (mem_callTimes hv hr.trip hr.leaves).2,
      hfits.alightTime_exact hs (mem_callTimes hv hr'.trip hr'.leaves).2]
    refine ho.alightTime_better s.heading.isExact_exact hd hd' hij (Array.getElem?_eq_some_iff.mp hi).1
      (Array.getElem?_eq_some_iff.mp hj).1 (hposition₀ ▸ hr.boards) hr.leaves
      (hposition ▸ hr'.boards) hr'.leaves (Bool.eq_false_iff.mpr fun hback => hequal ?_)
    exact Heading.eq_of_betterOrEqual hbetter hback

end Search

namespace Router

variable {x : Router} {r : Request} {watch : Option Watch} {supervisor : Supervisor} {s : Search}

theorem takes_of_unrestricted (hx : x.Deployed) (h : x.search r watch supervisor = .ok s)
    (hopen : r.IsUnrestricted) {v : PatternView} (hv : v ∈ s.viewList) (ho : v.IsOrderly) :
    s.Takes v := by
  intro d hd position stop call hcall
  have hroutable := ho.routable d hd call (Array.mem_of_getElem? hcall)
  exact accepts_of_routable hx h hopen hv hd hcall hroutable.1

end Router

namespace Crossing

/-- The street leg to the first stop, when the later trip of the first line is still to come. -/
def departing (s : Search) : Way :=
  ⟨s.originArrival 60 1 ⟨0, 0⟩, []⟩

/-- Who comes by the first line is at the stop between earlier and no more expensively than
who comes by the second one, and waits longer for the third one. -/
theorem meeting : ∃ s v w w' a b, router.search request none {} = .ok s
    ∧ w.Traced s s.times ∧ w'.Traced s s.times ∧ v ∈ s.viewList ∧ v.IsOrderly
    ∧ w.arrival.round = w'.arrival.round ∧ w.arrival.stop = w'.arrival.stop
    ∧ s.dominates w.arrival w'.arrival = true ∧ v.stops[0]? = some w'.arrival.stop
    ∧ s.heading.Precedes 0 1 ∧ s.rideAfter? v 0 1 1 w = some a
    ∧ s.rideAfter? v 0 1 1 w' = some b ∧ s.dominates a b = false := by
  have hany : (router.search request none {}).toOption.any (fun s =>
      s.viewList[0]?.any fun v => s.viewList[1]?.any fun v' => s.viewList[2]?.any fun v'' =>
      (s.caught? v 1 0 (departing s)).any fun e => (s.left? v 1 1 1 1 e.2).any fun a =>
      (s.caught? v' 1 0 (departing s)).any fun e' => (s.left? v' 1 1 1 1 e'.2).any fun a' =>
      let w := (departing s).extend a
      let w' := (departing s).extend a'
      (s.rideAfter? v'' 0 1 1 w).any fun a'' => (s.rideAfter? v'' 0 1 1 w').any fun b'' =>
        decide (v.stops = #[0, 1] ∧ v'.stops = #[0, 1] ∧ v''.stops = #[a'.stop, 2]
          ∧ v''.IsOrderly ∧ a.round = a'.round ∧ a.stop = a'.stop
          ∧ s.dominates w.arrival w'.arrival = true ∧ s.dominates a'' b'' = false
          ∧ ⟨0, 0⟩ ∈ s.origin ∧ 60 ∈ s.times ∧ s.heading.direction = .forward)) = true := by
    decide +kernel
  obtain ⟨s, hsearch, hany⟩ := Fallible.any_toOption.mp hany
  simp only [Option.any_eq_true, decide_eq_true_eq] at hany
  obtain ⟨v, hv, v', hv', v'', hv'', e, he, a, ha, e', he', a', ha', a'', ha'', b'', hb'', hstops,
    hstops', hstops'', horder, hround, hstop, hdominates, hlost, horigin, htime, hforward⟩ := hany
  have hprecedes : s.heading.Precedes 0 1 := by simp [Heading.Precedes, hforward]
  have hbegin : (departing s).Traced s s.times := .begin 1 horigin htime
  refine ⟨s, v'', _, _, a'', b'', hsearch, hbegin.goesOn ?_, hbegin.goesOn ?_,
    List.mem_of_getElem? hv'', horder, hround, hstop, hdominates, by rw [hstops'']; rfl, hprecedes,
    ha'', hb'', hlost⟩
  · exact .of_caught (List.mem_of_getElem? hv) (by rw [hstops]; rfl) (by rw [hstops]; rfl)
      hprecedes he ha
  · exact .of_caught (List.mem_of_getElem? hv') (by rw [hstops']; rfl) (by rw [hstops']; rfl)
      hprecedes he' ha'

end Crossing

end JourneyPlanner
