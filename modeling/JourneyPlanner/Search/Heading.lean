import JourneyPlanner.Routing.Request
import JourneyPlanner.Timetable.Basic

/-!
The direction of a search and the time kept for boarding. A search from the
destination runs the same rounds with time turned around: it catches trips where
passengers get off and leaves them where passengers get on.
-/

namespace JourneyPlanner

/-- How a search keeps sums of times. -/
inductive Sums where
  /-- In 32 bits, like all times. -/
  | wrapped
  /-- As they are, which is what the others come to as long as 32 bits hold them. -/
  | exact
  deriving DecidableEq

structure Heading where
  direction : Direction
  boardSlack : Time
  sums : Sums := .wrapped
  deriving DecidableEq

namespace Heading

def keep (h : Heading) (sum : Int) : Time :=
  match h.sums with
  | .wrapped => Time.wrap sum
  | .exact => sum

/-- The time `duration` further on in search direction. -/
def advance (h : Heading) (time duration : Time) : Time :=
  match h.direction with
  | .forward => h.keep (time + duration)
  | .reverse => h.keep (time - duration)

/-- Earlier is better going forward, later in reverse. -/
def better (h : Heading) (a b : Time) : Bool :=
  match h.direction with
  | .forward => decide (a < b)
  | .reverse => decide (b < a)

def betterOrEqual (h : Heading) (a b : Time) : Bool :=
  match h.direction with
  | .forward => decide (a ≤ b)
  | .reverse => decide (b ≤ a)

/-- How many iterations of the given step cover a window; at least one. -/
def iterationCount (window step : Time) : Nat :=
  (max 1 (Time.wrap (window + step - 1) / step)).toNat

/-- Start times of the iterations, the worst first. -/
def iterationTimes (h : Heading) (time window step : Time) : List Time :=
  let step := max 1 step
  (List.range (iterationCount window step)).reverse.map fun k =>
    h.advance time (Int.ofNat k * step)

/-- The stops of a pattern with their positions, in search direction. -/
def inOrder (h : Heading) (stops : List Nat) : List (Nat × Nat) :=
  match h.direction with
  | .forward => stops.zipIdx
  | .reverse => stops.zipIdx.reverse

/-- From when on a trip can be caught after reaching a stop. -/
def boardLimit (h : Heading) (time : Time) : Time :=
  match h.direction with
  | .forward => h.keep (time + h.boardSlack)
  | .reverse => time

/-- When a trip is caught at a call. -/
def boardTime (h : Heading) (c : Call) : Time :=
  match h.direction with
  | .forward => c.departure
  | .reverse => c.arrival

/-- When the stop counts as reached on leaving a trip at a call. -/
def alightTime (h : Heading) (c : Call) : Time :=
  match h.direction with
  | .forward => c.arrival
  | .reverse => h.keep (c.departure - h.boardSlack)

def inVehicle (h : Heading) (board alight : Call) : Time :=
  match h.direction with
  | .forward => h.keep (alight.arrival - board.departure)
  | .reverse => h.keep (board.arrival - alight.departure)

/-- Slack for boarding is not waiting. -/
def wait (h : Heading) (arrival boardTime : Time) : Time :=
  match h.direction with
  | .forward => h.keep (boardTime - arrival - h.boardSlack)
  | .reverse => h.keep (arrival - boardTime)

def boardRule (h : Heading) (c : Call) : PickDrop :=
  match h.direction with
  | .forward => c.pickup
  | .reverse => c.dropOff

def alightRule (h : Heading) (c : Call) : PickDrop :=
  match h.direction with
  | .forward => c.dropOff
  | .reverse => c.pickup

/-- Walks from a stop in search direction. -/
def walks (h : Heading) (t : Timetable) (stop : Nat) : List Transfer :=
  match h.direction with
  | .forward => t.transfersFrom stop
  | .reverse => t.transfersTo stop

/-- When the origin is left if the first trip is caught at `boardTime` after a
street leg: the street leg is moved so that nobody waits. -/
def originTime (h : Heading) (boardTime duration : Time) : Time :=
  match h.direction with
  | .forward => h.keep (boardTime - h.boardSlack - duration)
  | .reverse => h.keep (boardTime + duration)

theorem betterOrEqual_refl (h : Heading) (a : Time) : h.betterOrEqual a a = true := by
  unfold betterOrEqual
  split <;> simp

theorem betterOrEqual_trans (h : Heading) {a b c : Time} (hab : h.betterOrEqual a b = true)
    (hbc : h.betterOrEqual b c = true) : h.betterOrEqual a c = true := by
  unfold betterOrEqual at *
  cases hd : h.direction <;> simp only [hd, decide_eq_true_eq] at hab hbc ⊢
  · exact Int.le_trans hab hbc
  · exact Int.le_trans hbc hab

/-- Of two times one is strictly better or the other at least as good. -/
theorem better_eq_not (h : Heading) (a b : Time) : h.better a b = !h.betterOrEqual b a := by
  unfold better betterOrEqual
  cases h.direction <;> simp only [← decide_not, Int.not_le]

theorem keep_keep_add (h : Heading) (a b : Int) : h.keep (h.keep a + b) = h.keep (a + b) := by
  unfold keep
  cases h.sums with
  | wrapped => exact Time.wrap_wrap_add a b
  | exact => rfl

theorem keep_keep_sub (h : Heading) (a b : Int) : h.keep (h.keep a - b) = h.keep (a - b) := by
  unfold keep
  cases h.sums with
  | wrapped => exact Time.wrap_wrap_sub a b
  | exact => rfl

theorem keep_sub_keep (h : Heading) (a b : Int) : h.keep (a - h.keep b) = h.keep (a - b) := by
  unfold keep
  cases h.sums with
  | wrapped => exact Time.wrap_sub_wrap a b
  | exact => rfl

def IsExact (h : Heading) : Prop :=
  h.sums = .exact

theorem IsExact.keep {h : Heading} (hx : h.IsExact) (t : Int) : h.keep t = t := by
  unfold Heading.keep
  rw [hx]

/-- However sums are kept, one that 32 bits hold is kept as it is. -/
theorem keep_of_fits (h : Heading) {t : Int} (ht : Time.Fits t) : h.keep t = t := by
  unfold keep
  cases h.sums with
  | wrapped => exact Time.wrap_of_fits ht
  | exact => rfl

theorem advance_advance (h : Heading) (time d e : Time) :
    h.advance (h.advance time d) e = h.advance time (d + e) := by
  unfold advance
  cases h.direction
  · exact (h.keep_keep_add ..).trans (congrArg h.keep (Int.add_assoc time d e))
  · exact (h.keep_keep_sub ..).trans (congrArg h.keep (Int.sub_sub time d e))

end Heading
end JourneyPlanner
