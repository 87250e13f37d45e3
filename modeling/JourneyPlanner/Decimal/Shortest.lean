/-!
The shortest decimal of a binary floating point number: the fewest digits that
read back as the same number, and among those the nearest to it. A positive
number is `significand * 2 ^ exponent`; every decimal between the midpoints to
its two neighbours reads back, the midpoints themselves if the significand is
even. The search tries grids of one, two, … seventeen digits and works in exact
natural numbers.
-/

namespace JourneyPlanner.Decimal

/-- A positive binary number and the half gaps to its neighbours, all in units of
`1 / divisor`. -/
structure Interval where
  value : Nat
  below : Nat
  above : Nat
  divisor : Nat
  closed : Bool

def Interval.contains (i : Interval) (num den : Nat) : Bool :=
  let low := (i.value - i.below) * den
  let high := (i.value + i.above) * den
  let x := num * i.divisor
  if i.closed then decide (low ≤ x) && decide (x ≤ high) else decide (low < x) && decide (x < high)

/-- Decodes the bits of a positive finite number. -/
def intervalOfBits (bits : Nat) : Interval :=
  let fraction := bits % Nat.pow 2 52
  let biased := bits / Nat.pow 2 52 % Nat.pow 2 11
  let significand := if biased = 0 then fraction else Nat.pow 2 52 + fraction
  -- the number is 4 * significand * 2 ^ (shift - 1077)
  let shift := if biased = 0 then 1 else biased
  let below := if fraction = 0 ∧ 1 < biased then 1 else 2
  if 1077 ≤ shift then
    let unit := Nat.pow 2 (shift - 1077)
    ⟨4 * significand * unit, below * unit, 2 * unit, 1, significand % 2 == 0⟩
  else
    ⟨4 * significand, below, 2, Nat.pow 2 (1077 - shift), significand % 2 == 0⟩

/-- A decimal `digits * 10 ^ exponent`. -/
structure Scientific where
  digits : Nat
  exponent : Int
  deriving DecidableEq, Repr

/-- Numerator and denominator of `c * 10 ^ e`. -/
def ratio (c : Nat) (e : Int) : Nat × Nat :=
  if 0 ≤ e then (c * Nat.pow 10 e.toNat, 1) else (c, Nat.pow 10 (-e).toNat)

/-- The least `e` from `e₀` on with `value < 10 ^ e`, at most `fuel` steps away. -/
def magnitudeFrom (i : Interval) : Nat → Int → Int
  | 0, e => e
  | fuel + 1, e =>
    let (num, den) := ratio 1 e
    if i.value * den < num * i.divisor then e else magnitudeFrom i fuel (e + 1)

def magnitude (i : Interval) : Int :=
  magnitudeFrom i 700 (-330)

/-- The nearer of the two grid points around the value that reads back, on the
grid `10 ^ e`. -/
def nearestOnGrid? (i : Interval) (e : Int) : Option Nat :=
  let (num, den) := ratio 1 e
  let scaled := i.value * den
  let unit := num * i.divisor
  let floor := scaled / unit
  let rest := scaled % unit
  let fits (c : Nat) : Bool :=
    let (n, d) := ratio c e
    i.contains n d
  let lowFits := fits floor
  let highFits := fits (floor + 1)
  if lowFits && highFits then
    some (if 2 * rest < unit then floor
      else if unit < 2 * rest then floor + 1
      else if floor % 2 = 0 then floor else floor + 1)
  else if lowFits then some floor
  else if highFits then some (floor + 1)
  else none

def stripZeros : Nat → Scientific → Scientific
  | 0, s => s
  | fuel + 1, s =>
    if s.digits ≠ 0 ∧ s.digits % 10 = 0 then stripZeros fuel ⟨s.digits / 10, s.exponent + 1⟩ else s

def searchFrom (i : Interval) (top : Int) : Nat → Nat → Scientific
  | 0, count => ⟨(nearestOnGrid? i (top - count)).getD 0, top - count⟩
  | fuel + 1, count =>
    match nearestOnGrid? i (top - count) with
    | some c => ⟨c, top - count⟩
    | none => searchFrom i top fuel (count + 1)

def shortest (i : Interval) : Scientific :=
  stripZeros 20 (searchFrom i (magnitude i) 17 1)

end JourneyPlanner.Decimal
